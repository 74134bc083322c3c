import MessageWire.Bytes
/-!
# UTF-8

Text travels as UTF-8. Bytes that are none are reported with the place where they stop being so: the
index of the first character that is not whole, and the number of bytes there that can never belong to
a character, or none if the bytes only end too early.
-/

namespace MessageWire.Utf8

/-- Where bytes stop being UTF-8. `badLength?` is missing if they end inside a character. -/
structure Fault where
  index : Nat
  badLength? : Option Nat
  deriving DecidableEq

def Fault.message (f : Fault) : String :=
  match f.badLength? with
  | some n => s!"invalid utf-8 sequence of {n} bytes from index {f.index}"
  | none => s!"incomplete utf-8 byte sequence from index {f.index}"

def within (low high b : UInt8) : Bool := low ≤ b && b ≤ high

/-- The number of bytes behind a first byte, and the range of the second one, which leaves out over-long forms and
surrogates. -/
def leads (b : UInt8) : Option (Nat × UInt8 × UInt8) :=
  if within 0xc2 0xdf b then some (1, 0x80, 0xbf)
  else if b = 0xe0 then some (2, 0xa0, 0xbf)
  else if b = 0xed then some (2, 0x80, 0x9f)
  else if within 0xe1 0xef b then some (2, 0x80, 0xbf)
  else if b = 0xf0 then some (3, 0x90, 0xbf)
  else if within 0xf1 0xf3 b then some (3, 0x80, 0xbf)
  else if b = 0xf4 then some (3, 0x80, 0x8f)
  else none

/-- How the bytes behind a first byte fail to finish its character, if they do; the inner `none` says that they end
early. -/
def tailFault : (want : Nat) → (low high : UInt8) → (seen : Nat) → Bytes → Option (Option Nat)
  | 0, _, _, _, _ => none
  | _ + 1, _, _, _, [] => some none
  | want + 1, low, high, seen, b :: rest =>
    if within low high b then tailFault want 0x80 0xbf (seen + 1) rest else some (some seen)

def faultFrom (index : Nat) (bs : Bytes) : Option Fault :=
  match bs with
  | [] => none
  | b :: rest =>
    if b < 0x80 then faultFrom (index + 1) rest
    else
      match leads b with
      | none => some ⟨index, some 1⟩
      | some (want, low, high) =>
        match tailFault want low high 1 rest with
        | some badLength? => some ⟨index, badLength?⟩
        | none => faultFrom (index + 1 + want) (rest.drop want)
termination_by bs.length
decreasing_by
  all_goals
    simp only [List.length_cons, List.length_drop]
    omega

/-- Where the given bytes stop being UTF-8, if they do. -/
def fault? (bs : Bytes) : Option Fault := faultFrom 0 bs

def encode (s : String) : Bytes := s.toUTF8.data.toList

/-- The text that has the given bytes, if they are UTF-8. -/
def decode? (bs : Bytes) : Option String := String.fromUTF8? bs.toByteArray

theorem decode?_encode (s : String) : decode? (encode s) = some s := by
  have hbytes : (encode s).toByteArray = s.toByteArray := by
    apply ByteArray.ext
    simp [encode]
  rw [decode?, hbytes, String.fromUTF8?, dif_pos s.isValidUTF8]
  rfl

/-- Bytes that are read as a text are the bytes of that text. -/
theorem encode_of_decode? {bs : Bytes} {s : String} (h : decode? bs = some s) : encode s = bs := by
  unfold decode? String.fromUTF8? at h
  split at h
  · cases h
    simp [encode, String.fromUTF8]
  · contradiction

end MessageWire.Utf8
