/-
  ServiceSchema.Proofs.ByteOrder — texts in the order of their bytes.

  Texts are compared character by character here, and byte by byte where a file system
  sorts names. In UTF-8 the two orders are one: a greater character has greater bytes, and
  where two characters differ their bytes differ before either of them ends (`encode_lt`).

  - `bytes_lt`: the lesser of two texts has the lesser bytes.
-/
import Mathlib.Data.String.Basic

namespace ServiceSchema.Text

/-- The bytes of a text in UTF-8. -/
def bytes (text : String) : List UInt8 := text.toUTF8.data.toList

theorem bytes_eq_flatMap (text : String) : bytes text = text.toList.flatMap String.utf8EncodeChar := by
  rw [bytes, String.toUTF8_eq_toByteArray, ← String.utf8Encode_toList, List.utf8Encode,
    List.toList_data_toByteArray]

theorem ofNat_cons_lt {m n : Nat} {u v : List UInt8} (hm : m < 256) (hn : n < 256) :
    UInt8.ofNat m :: u < UInt8.ofNat n :: v ↔ m < n ∨ m = n ∧ u < v := by
  rw [List.cons_lt_cons_iff, UInt8.lt_iff_toNat_lt, ← UInt8.toNat_inj, UInt8.toNat_ofNat_of_lt' hm,
    UInt8.toNat_ofNat_of_lt' hn]

/-- The greater number is greater before its last six bits, or else in them. -/
theorem sixBits_lt {m n : Nat} (h : m < n) : m / 64 < n / 64 ∨ m / 64 = n / 64 ∧ m % 64 < n % 64 := by
  omega

/-- The lesser character has the lesser bytes, whatever follows. -/
theorem encode_lt {c c' : Char} (h : c < c') (u v : List UInt8) :
    String.utf8EncodeChar c ++ u < String.utf8EncodeChar c' ++ v := by
  have hlt : c.val.toNat < c'.val.toNat := h
  have hmax : c'.val.toNat < 0x110000 := by
    rcases c'.valid with hlow | hhigh <;> omega
  unfold String.utf8EncodeChar
  generalize c.val.toNat = m at hlt
  generalize c'.val.toNat = n at hlt hmax
  have hlast := sixBits_lt hlt
  have hmiddle := @sixBits_lt (m / 64) (n / 64)
  have hfirst := @sixBits_lt (m / 4096) (n / 4096)
  simp only [Nat.div_div_eq_div_mul, Nat.reduceMul] at hmiddle hfirst
  -- by the number of bytes; the first byte of a longer encoding is the greater one
  dsimp only
  split_ifs <;>
    simp (disch := omega) only [List.cons_append, List.nil_append, ofNat_cons_lt, Nat.mod_eq_of_lt] <;> omega

theorem flatMap_encode_lt {cs cs' : List Char} (h : cs < cs') :
    cs.flatMap String.utf8EncodeChar < cs'.flatMap String.utf8EncodeChar := by
  induction h with
  | @nil c cs =>
    obtain ⟨first, rest, hc⟩ := List.exists_cons_of_ne_nil (String.utf8EncodeChar_ne_nil (c := c))
    rw [List.flatMap_nil, List.flatMap_cons, hc]
    exact List.nil_lt_cons _ _
  | @cons c cs cs' _ ih =>
    rw [List.flatMap_cons, List.flatMap_cons]
    exact List.append_left_lt ih
  | rel hlt =>
    rw [List.flatMap_cons, List.flatMap_cons]
    exact encode_lt hlt _ _

/-- The lesser text has the lesser bytes. -/
theorem bytes_lt {a b : String} (h : a < b) : bytes a < bytes b := by
  rw [bytes_eq_flatMap, bytes_eq_flatMap]
  exact flatMap_encode_lt (String.lt_iff_toList_lt.1 h)

end ServiceSchema.Text
