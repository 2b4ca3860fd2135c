import Mathlib.Data.String.Basic
import TradeWire.Text.Utf8

/-! Texts compared character by character stand in the order of their bytes. -/

set_option autoImplicit false
set_option relaxedAutoImplicit false

namespace TradeWire.Text

theorem encodeUtf8_eq_flatMap (s : String) : encodeUtf8 s = s.toList.flatMap String.utf8EncodeChar := by
  have bytes : s.toByteArray = s.toList.utf8Encode := by
    rw [← String.toByteArray_ofList, String.ofList_toList]
  simp only [encodeUtf8_eq, bytes]
  simp [List.utf8Encode]

private theorem utf8EncodeChar_append_lt {c d : Char} (smaller : c < d) (x y : Bytes) :
    String.utf8EncodeChar c ++ x < String.utf8EncodeChar d ++ y := by
  have order : c.val.toNat < d.val.toNat := smaller
  have bound : d.val.toNat < 0x110000 := by
    have valid := d.valid
    unfold UInt32.isValidChar Nat.isValidChar at valid
    omega
  unfold String.utf8EncodeChar
  generalize c.val.toNat = n at order ⊢
  generalize d.val.toNat = k at order bound ⊢
  simp only
  -- the numbers of bytes are equal or the first byte decides; then digits of base 64 are compared
  split_ifs <;>
    simp only [List.cons_append, List.nil_append, List.cons_lt_cons_iff, UInt8.lt_iff_toNat_lt,
      ← UInt8.toNat_inj, UInt8.toNat_ofNat'] <;>
    simp (disch := omega) only [Nat.mod_eq_of_lt] <;>
    omega

private theorem flatMap_utf8EncodeChar_lt {cs ds : List Char} (smaller : cs < ds) :
    cs.flatMap String.utf8EncodeChar < ds.flatMap String.utf8EncodeChar := by
  induction ds generalizing cs with
  | nil => exact absurd smaller (List.not_lt_nil cs)
  | cons d ds ih =>
    rw [List.flatMap_cons]
    cases cs with
    | nil =>
      obtain ⟨b, rest, bytes⟩ := List.exists_cons_of_ne_nil (String.utf8EncodeChar_ne_nil (c := d))
      rw [bytes]
      exact List.nil_lt_cons b _
    | cons c cs =>
      rw [List.flatMap_cons]
      rcases List.cons_lt_cons_iff.mp smaller with here | ⟨rfl, later⟩
      · exact utf8EncodeChar_append_lt here _ _
      · exact List.append_left_lt (ih later)

theorem encodeUtf8_le_iff {s t : String} : encodeUtf8 s ≤ encodeUtf8 t ↔ s ≤ t := by
  have mono : ∀ {a b : String}, a < b → encodeUtf8 a < encodeUtf8 b := by
    intro a b smaller
    rw [encodeUtf8_eq_flatMap, encodeUtf8_eq_flatMap]
    exact flatMap_utf8EncodeChar_lt (String.lt_iff_toList_lt.mp smaller)
  constructor
  · intro ordered
    by_contra greater
    exact ordered (mono (String.not_le.mp greater))
  · intro ordered
    by_cases same : s = t
    · rw [same]
      exact List.le_refl _
    · have smaller : s < t := String.not_le.mp fun other => same (String.le_antisymm ordered other)
      exact List.le_of_lt (mono smaller)

end TradeWire.Text
