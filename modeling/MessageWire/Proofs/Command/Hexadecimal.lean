import Mathlib.Data.List.Induction
import MessageWire.Command.Hex
import MessageWire.Proofs.Command.Characters
/-!
# What hexadecimal text denotes

A text denotes bytes if, with its ASCII white space taken out, it is pairs of hexadecimal digits (`Hex.Denotes`), that
is, if its characters are even in number and all digits (`Hex.exists_denotes_iff`). These texts are decoded, to the
bytes they denote, and no others (`Hex.decode_eq_ok_iff`).
-/

namespace MessageWire.Hex

variable {c : Char} {cs : List Char} {b : UInt8} {bs payload : Bytes}

/-! ### Digits and pairs -/

/-- The value of a hexadecimal digit, in either case. -/
def value? (c : Char) : Option Nat :=
  if '0' ≤ c ∧ c ≤ '9' then some (c.toNat - '0'.toNat)
  else if 'a' ≤ c ∧ c ≤ 'f' then some (10 + (c.toNat - 'a'.toNat))
  else if 'A' ≤ c ∧ c ≤ 'F' then some (10 + (c.toNat - 'A'.toNat))
  else none

def isWhite (c : Char) : Bool := ['\t', '\n', '\x0c', '\x0d', ' '].contains c

/-- The characters of a text that are not ASCII white space. -/
def digits (text : String) : List Char := text.toList.filter (!isWhite ·)

/-- The bytes of pairs of digits, the high digit in front. -/
inductive Denotes : List Char → Bytes → Prop
  | nil : Denotes [] []
  | pair {high low : Char} {h l : Nat} {rest : List Char} {payload : Bytes} (hhigh : value? high = some h)
      (hlow : value? low = some l) (more : Denotes rest payload) :
      Denotes (high :: low :: rest) (UInt8.ofNat (16 * h + l) :: payload)

theorem exists_denotes_iff :
    (∃ payload, Denotes cs payload) ↔ cs.length % 2 = 0 ∧ ∀ c ∈ cs, (value? c).isSome := by
  constructor
  · rintro ⟨payload, h⟩
    induction h with
    | nil => exact ⟨rfl, List.forall_mem_nil _⟩
    | pair hhigh hlow more ih =>
      refine ⟨?_, List.forall_mem_cons.mpr ⟨?_, List.forall_mem_cons.mpr ⟨?_, ih.2⟩⟩⟩
      · simp only [List.length_cons]
        omega
      · rw [hhigh]
        rfl
      · rw [hlow]
        rfl
  · rintro ⟨heven, hall⟩
    induction cs using List.twoStepInduction with
    | nil => exact ⟨[], .nil⟩
    | singleton c => exact absurd heven Nat.one_ne_zero
    | cons_cons high low rest ih _ =>
      simp only [List.forall_mem_cons, Option.isSome_iff_exists] at hall
      obtain ⟨⟨h, hhigh⟩, ⟨l, hlow⟩, hrest⟩ := hall
      simp only [List.length_cons] at heven
      obtain ⟨payload, hmore⟩ := ih (by omega) fun c hc => Option.isSome_iff_exists.mpr (hrest c hc)
      exact ⟨_, .pair hhigh hlow hmore⟩

/-! ### Characters below 128 -/

theorem forall_of_lt {P : Char → Prop} (h : ∀ n < 128, P (Char.ofNat n)) (hc : c.toNat < 128) : P c := by
  have hp := h c.toNat hc
  rwa [Char.ofNat_toNat] at hp

theorem lt_of_value? {v : Nat} (h : value? c = some v) : c.toNat < 128 := by
  have hle : ∀ {d : Char}, c ≤ d → c.toNat ≤ d.toNat := fun h => h
  unfold value? at h
  split at h
  case isTrue hdigit => exact Nat.lt_of_le_of_lt (hle hdigit.2) (by decide)
  case isFalse =>
    split at h
    case isTrue hlower => exact Nat.lt_of_le_of_lt (hle hlower.2) (by decide)
    case isFalse =>
      split at h
      case isTrue hupper => exact Nat.lt_of_le_of_lt (hle hupper.2) (by decide)
      case isFalse => cases h

theorem digit_ofChar (hc : c.toNat < 128) :
    (digit (UInt8.ofNat c.toNat)).toOption = (value? c).map UInt8.ofNat :=
  forall_of_lt (P := fun c => (digit (UInt8.ofNat c.toNat)).toOption = (value? c).map UInt8.ofNat)
    (by decide +kernel) hc

theorem digit_of_value? {v : Nat} (h : value? c = some v) : digit (UInt8.ofNat c.toNat) = .ok (UInt8.ofNat v) := by
  have hdigit := digit_ofChar (lt_of_value? h)
  rw [h] at hdigit
  cases hresult : digit (UInt8.ofNat c.toNat) with
  | error f => simp [hresult, Except.toOption] at hdigit
  | ok d => simpa [hresult, Except.toOption] using hdigit

theorem digit_of_no_value? (hc : c.toNat < 128) (h : value? c = none) :
    ∃ f, digit (UInt8.ofNat c.toNat) = .error f := by
  have hdigit := digit_ofChar hc
  rw [h] at hdigit
  cases hresult : digit (UInt8.ofNat c.toNat) with
  | error f => exact ⟨f, rfl⟩
  | ok d => simp [hresult, Except.toOption] at hdigit

theorem digit_of_le (hb : 128 ≤ b.toNat) : digit b = .error (.badDigit b) := by
  have hlarge : ∀ n : UInt8, n.toNat < 128 → ¬ b ≤ n := by
    intro n hn hle
    have hle' : b.toNat ≤ n.toNat := hle
    omega
  unfold digit
  simp [hlarge 57 (by decide), hlarge 102 (by decide), hlarge 70 (by decide)]

theorem not_isSpace_of_le (hb : 128 ≤ b.toNat) : isSpace b = false := by
  have hsmall : ∀ s ∈ ([9, 10, 12, 13, 32] : Bytes), s.toNat < 128 := by decide +kernel
  rw [isSpace, List.contains_eq_mem, decide_eq_false_iff_not]
  intro hmem
  have hlt := hsmall b hmem
  omega

theorem isSpace_ofChar (c : Char) :
    (128 ≤ c.toNat || !isSpace (UInt8.ofNat c.toNat)) = !isWhite c := by
  by_cases hc : c.toNat < 128
  · exact forall_of_lt (P := fun c => (128 ≤ c.toNat || !isSpace (UInt8.ofNat c.toNat)) = !isWhite c)
      (by decide +kernel) hc
  · have hsmall : ∀ d ∈ ['\t', '\n', '\x0c', '\x0d', ' '], d.toNat < 128 := by simp
    have hnot : isWhite c = false := by
      rw [isWhite, List.contains_eq_mem, decide_eq_false_iff_not]
      exact fun hmem => hc (hsmall c hmem)
    rw [hnot, decide_eq_true (Nat.not_lt.mp hc)]
    rfl

theorem filter_eq (text : String) :
    (Utf8.encode text).filter (!isSpace ·) = (digits text).flatMap String.utf8EncodeChar := by
  rw [Utf8.filter_encode fun b hb => by rw [not_isSpace_of_le hb]; rfl]
  simp only [isSpace_ofChar, digits]

/-! ### Decoding -/

theorem lt_of_digit {v : UInt8} (h : digit b = .ok v) : b.toNat < 128 := by
  by_contra hge
  rw [digit_of_le (Nat.not_lt.mp hge)] at h
  cases h

theorem lt_of_pairs {done : Bytes} (h : pairs bs done = .ok payload) : ∀ b ∈ bs, b.toNat < 128 := by
  fun_induction pairs bs done with
  | case1 done => exact List.forall_mem_nil _
  | case2 => cases h
  | case3 => cases h
  | case4 => cases h
  | case5 high low rest done h' l' hlow hhigh ih =>
    exact List.forall_mem_cons.mpr ⟨lt_of_digit hhigh, List.forall_mem_cons.mpr ⟨lt_of_digit hlow, ih h⟩⟩

/-- Pairs of digits are decoded to what they denote, behind the bytes that are done. -/
theorem pairs_eq_ok_iff (hascii : ∀ c ∈ cs, c.toNat < 128) (done result : Bytes) :
    pairs (cs.map fun c => UInt8.ofNat c.toNat) done = .ok result
      ↔ ∃ payload, Denotes cs payload ∧ result = done.reverse ++ payload := by
  -- Two characters at a time, and `done` grows by the byte that they stand for.
  induction cs using List.twoStepInduction generalizing done with
  | nil =>
    rw [List.map_nil, pairs]
    constructor
    · rintro ⟨⟩
      exact ⟨[], .nil, (List.append_nil _).symm⟩
    · rintro ⟨payload, ⟨⟩, rfl⟩
      rw [List.append_nil]
  | singleton c =>
    rw [List.map_singleton, pairs]
    constructor
    · rintro ⟨⟩
    · rintro ⟨payload, ⟨⟩, -⟩
  | cons_cons high low rest ih _ =>
    simp only [List.forall_mem_cons] at hascii
    obtain ⟨hhigh, hlow, hrest⟩ := hascii
    rw [List.map_cons, List.map_cons, pairs]
    cases hvalue : value? high with
    | none =>
      obtain ⟨f, hf⟩ := digit_of_no_value? hhigh hvalue
      rw [hf]
      constructor
      · rintro ⟨⟩
      · rintro ⟨payload, hdenotes, -⟩
        cases hdenotes with
        | pair hhigh' hlow' more => rw [hvalue] at hhigh'; cases hhigh'
    | some h =>
      rw [digit_of_value? hvalue]
      cases hvalue' : value? low with
      | none =>
        obtain ⟨f, hf⟩ := digit_of_no_value? hlow hvalue'
        rw [hf]
        constructor
        · rintro ⟨⟩
        · rintro ⟨payload, hdenotes, -⟩
          cases hdenotes with
          | pair hhigh' hlow' more => rw [hvalue'] at hlow'; cases hlow'
      | some l =>
        have hbyte : 16 * UInt8.ofNat h + UInt8.ofNat l = UInt8.ofNat (16 * h + l) := by
          rw [UInt8.ofNat_add, UInt8.ofNat_mul]
          rfl
        rw [digit_of_value? hvalue']
        simp only [hbyte, ih hrest, List.reverse_cons, List.append_assoc, List.singleton_append]
        constructor
        · rintro ⟨payload, more, rfl⟩
          exact ⟨_, .pair hvalue hvalue' more, rfl⟩
        · rintro ⟨payload, hdenotes, rfl⟩
          cases hdenotes with
          | pair hhigh' hlow' more =>
            rw [hvalue] at hhigh'
            rw [hvalue'] at hlow'
            cases hhigh'
            cases hlow'
            exact ⟨_, more, rfl⟩

theorem Denotes.lt (h : Denotes cs payload) : ∀ c ∈ cs, c.toNat < 128 := by
  intro c hc
  have hall := (exists_denotes_iff.mp ⟨payload, h⟩).2 c hc
  obtain ⟨v, hv⟩ := Option.isSome_iff_exists.mp hall
  exact lt_of_value? hv

/-- **Texts that denote bytes are decoded to these**, and no other texts are decoded. -/
theorem decode_eq_ok_iff (text : String) : decode text = .ok payload ↔ Denotes (digits text) payload := by
  unfold decode
  rw [filter_eq]
  constructor
  · intro h
    simp only at h
    split at h
    case isTrue => cases h
    case isFalse =>
      have hascii := Utf8.lt_of_forall_mem_flatMap (lt_of_pairs h)
      rw [Utf8.flatMap_utf8EncodeChar_of_lt hascii, pairs_eq_ok_iff hascii] at h
      obtain ⟨denoted, hdenotes, rfl⟩ := h
      exact hdenotes
  · intro h
    have heven := (exists_denotes_iff.mp ⟨payload, h⟩).1
    rw [Utf8.flatMap_utf8EncodeChar_of_lt h.lt]
    simp only [List.length_map, heven]
    exact (pairs_eq_ok_iff h.lt [] payload).mpr ⟨payload, h, rfl⟩

/-- A text is refused if the characters that are no white space are odd in number, or not all digits. -/
theorem decode_error_iff (text : String) :
    (∃ f, decode text = .error f)
      ↔ ¬ ((digits text).length % 2 = 0 ∧ ∀ c ∈ digits text, (value? c).isSome) := by
  rw [← exists_denotes_iff]
  have hdenotes : (∃ payload, Denotes (digits text) payload) ↔ ∃ payload, decode text = .ok payload :=
    exists_congr fun payload => (decode_eq_ok_iff text).symm
  rw [hdenotes]
  cases decode text <;> simp

end MessageWire.Hex
