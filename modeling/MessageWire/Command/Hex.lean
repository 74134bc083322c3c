import MessageWire.Text
import MessageWire.Value.Utf8
/-!
# Hexadecimal payloads

A payload may be given in hexadecimal, two digits a byte, with white space anywhere between the digits.
-/

namespace MessageWire.Hex

/-- Why a text is no hexadecimal payload. -/
inductive Fault where
  /-- The last byte has one digit only. -/
  | oddDigits
  /-- A byte of the text that is no digit. -/
  | badDigit (b : UInt8)
  deriving DecidableEq

def Fault.message : Fault → String
  | oddDigits => "hex payload has an odd number of digits"
  | badDigit b => "invalid hex digit " ++ Text.character (Char.ofNat b.toNat)

def isSpace (b : UInt8) : Bool := [9, 10, 12, 13, 32].contains b

def digit (b : UInt8) : Except Fault UInt8 :=
  if 48 ≤ b && b ≤ 57 then .ok (b - 48)
  else if 97 ≤ b && b ≤ 102 then .ok (b - 87)
  else if 65 ≤ b && b ≤ 70 then .ok (b - 55)
  else .error (.badDigit b)

/-- The bytes that pairs of digits stand for, put behind those in `done`, which are kept last one
first. -/
def pairs : Bytes → Bytes → Except Fault Bytes
  | [], done => .ok done.reverse
  | [_], _ => .error .oddDigits
  | high :: low :: rest, done =>
    match digit high, digit low with
    | .error f, _ => .error f
    | .ok _, .error f => .error f
    | .ok high, .ok low => pairs rest ((16 * high + low) :: done)

/-- The bytes that a text stands for. That their digits are even in number comes before all else. -/
def decode (text : String) : Except Fault Bytes :=
  let digits := (Utf8.encode text).filter (!isSpace ·)
  if digits.length % 2 = 1 then .error .oddDigits else pairs digits []

end MessageWire.Hex
