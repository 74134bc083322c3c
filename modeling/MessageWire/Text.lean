import MessageWire.Text.Numbered
/-!
# Text forms

The spellings that messages, descriptions and listings share: hexadecimal numerals, quoted text in the
two conventions in use (JSON, and the one-line descriptions of settings), and the description of a
record by its name and fields.
-/

namespace MessageWire.Text

/-! ### Numerals -/

/-- `n` in hexadecimal with lower-case digits, zeros in front up to `width` digits. -/
def hexDigits (width n : Nat) : String :=
  let digits := Nat.toDigits 16 n
  String.ofList (List.replicate (width - digits.length) '0' ++ digits)

/-- `n` as a hexadecimal numeral with the `0x` mark, of at least `width` digits. -/
def hex (width n : Nat) : String := "0x" ++ hexDigits width n

/-! ### Quoting -/

/-- A character inside a JSON string. The quote, the backslash and control characters are escaped; all others stand for
themselves. -/
def jsonChar (c : Char) : String :=
  if c = '"' then "\\\""
  else if c = '\\' then "\\\\"
  else if c = '\x08' then "\\b"
  else if c = '\x0c' then "\\f"
  else if c = '\n' then "\\n"
  else if c = '\x0d' then "\\r"
  else if c = '\t' then "\\t"
  else if c.toNat < 0x20 then "\\u" ++ hexDigits 4 c.toNat
  else c.toString

def json (s : String) : String := "\"" ++ String.join (s.toList.map jsonChar) ++ "\""

/-- A character inside a description that is closed by `quote`. -/
def shownChar (quote c : Char) : String :=
  if c = '\x00' then "\\0"
  else if c = '\t' then "\\t"
  else if c = '\x0d' then "\\r"
  else if c = '\n' then "\\n"
  else if c = '\\' then "\\\\"
  else if c = quote then "\\" ++ quote.toString
  else if numbered.covers c then
    "\\u\x7b" ++ hexDigits 1 c.toNat ++ "\x7d"
  else c.toString

/-- A character between single quotes. -/
def character (c : Char) : String := "'" ++ shownChar '\'' c ++ "'"

def quoted (s : String) : String := "\"" ++ String.join (s.toList.map (shownChar '"')) ++ "\""

/-! ### Records -/

/-- The description of a record: its name, then its fields in order. -/
def record (name : String) (fields : List (String × String)) : String :=
  name ++ " \x7b " ++ ", ".intercalate (fields.map fun (field, value) => field ++ ": " ++ value) ++ " \x7d"

/-- The description of a record that has more fields than are told. -/
def openRecord (name : String) (fields : List (String × String)) : String :=
  name ++ " \x7b " ++ ", ".intercalate (fields.map fun (field, value) => field ++ ": " ++ value) ++ ", .. \x7d"

end MessageWire.Text
