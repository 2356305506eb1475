import Mathlib.Data.List.Basic
import Mathlib.Tactic.SplitIfs
import TemplateEngine.Dictionary

/-!
# The order of texts in bytes

Texts are compared character by character, and this is the order of their bytes in UTF-8
(`utf8_lt_of_lt`): where two characters differ, so do their bytes, in the same direction and before
either of them ends. So the keys of a dictionary stand in the order of their bytes.
-/

namespace TemplateEngine

/-- The bytes of a text in UTF-8. -/
def utf8 (s : String) : List UInt8 := s.toUTF8.data.toList

namespace Utf8

theorem ofNat_lt_ofNat {m n : Nat} (hm : m < 256) (hn : n < 256) :
    UInt8.ofNat m < UInt8.ofNat n ↔ m < n := by
  rw [UInt8.lt_iff_toNat_lt, UInt8.toNat_ofNat', UInt8.toNat_ofNat', Nat.mod_eq_of_lt hm,
    Nat.mod_eq_of_lt hn]

theorem ofNat_eq_ofNat {m n : Nat} (hm : m < 256) (hn : n < 256) :
    UInt8.ofNat m = UInt8.ofNat n ↔ m = n := by
  rw [← UInt8.toNat_inj, UInt8.toNat_ofNat', UInt8.toNat_ofNat', Nat.mod_eq_of_lt hm,
    Nat.mod_eq_of_lt hn]

/-- The parts of a code point that go into four bytes. -/
theorem exists_parts {v : Nat} (h : v < 0x110000) :
    ∃ a b c d, v / 262144 % 8 = a ∧ v / 4096 % 64 = b ∧ v / 64 % 64 = c ∧ v % 64 = d ∧
      v = 262144 * a + 4096 * b + 64 * c + d ∧ a < 8 ∧ b < 64 ∧ c < 64 ∧ d < 64 := by
  refine ⟨_, _, _, _, rfl, rfl, rfl, rfl, ?_, ?_, ?_, ?_, ?_⟩ <;> omega

/-- The bytes of a greater character are greater, whatever follows them. -/
theorem encodeChar_append_lt {c d : Char} (h : c < d) (xs ys : List UInt8) :
    String.utf8EncodeChar c ++ xs < String.utf8EncodeChar d ++ ys := by
  have hlt : c.val.toNat < d.val.toNat := h
  have hmax : d.val.toNat < 0x110000 := by
    rcases d.valid with hvalid | hvalid <;> omega
  simp only [String.utf8EncodeChar]
  generalize c.val.toNat = m at hlt ⊢
  generalize d.val.toNat = n at hlt hmax ⊢
  -- each of the two takes one to four bytes
  split_ifs <;> simp (disch := omega) only [List.cons_append, List.nil_append,
    List.cons_lt_cons_iff, ofNat_lt_ofNat, ofNat_eq_ofNat]
  any_goals omega
  -- four bytes each
  obtain ⟨a, b, e, f, ha, hb, he, hf, hm, -⟩ := exists_parts (v := m) (by omega)
  obtain ⟨a', b', e', f', ha', hb', he', hf', hn, -⟩ := exists_parts (v := n) (by omega)
  rw [ha, hb, he, hf, ha', hb', he', hf']
  omega

theorem flatMap_encode_lt {xs ys : List Char} (h : xs < ys) :
    xs.flatMap String.utf8EncodeChar < ys.flatMap String.utf8EncodeChar := by
  induction xs generalizing ys with
  | nil =>
    cases ys with
    | nil => exact absurd h (List.lt_irrefl [])
    | cons d ys =>
      cases hd : String.utf8EncodeChar d with
      | nil => exact absurd hd String.utf8EncodeChar_ne_nil
      | cons b bs =>
        rw [List.flatMap_nil, List.flatMap_cons, hd, List.cons_append]
        exact List.nil_lt_cons _ _
  | cons c xs ih =>
    cases ys with
    | nil => exact absurd h (List.not_lt_nil _)
    | cons d ys =>
      rw [List.flatMap_cons, List.flatMap_cons]
      obtain hcd | ⟨rfl, hrest⟩ := List.cons_lt_cons_iff.1 h
      · exact encodeChar_append_lt hcd _ _
      · exact List.append_left_lt (ih hrest)

end Utf8

theorem utf8_eq (s : String) : utf8 s = s.toList.flatMap String.utf8EncodeChar := by
  have hbytes : s.toUTF8 = s.toList.utf8Encode := by
    rw [← String.toByteArray_ofList, String.ofList_toList, String.toUTF8_eq_toByteArray]
  rw [utf8, hbytes]
  exact List.toList_data_toByteArray

/-- A text that is smaller as characters is smaller as bytes. -/
theorem utf8_lt_of_lt {s t : String} (h : s < t) : utf8 s < utf8 t := by
  rw [utf8_eq, utf8_eq]
  exact Utf8.flatMap_encode_lt (String.lt_iff.1 h)

/-- The keys of a dictionary stand in the order of their bytes. -/
theorem Dictionary.keys_in_byte_order {α : Type} (d : Dictionary α) :
    d.keys.Pairwise fun a b => utf8 a < utf8 b :=
  d.sorted.imp utf8_lt_of_lt

end TemplateEngine
