import MessageWire.Text.Width
/-!
# Wrapped text

Text set in lines of limited width. Lines break at spaces, and a word breaks where it is longer than a
line by itself. A line that has room for no more than a letter and a space is full.
-/

namespace MessageWire.Text

/-- Text being set: the lines that are full, the last of them first, and the line in work with the
columns that it takes. -/
structure Setting where
  full : List String := []
  line : String := ""
  used : Nat := 0

namespace Setting

/-- The space that a line needs before more is set behind what it has. -/
def gap (s : Setting) : Nat := if s.line.isEmpty then 0 else 1

/-- The setting with the line in work closed. -/
def close (s : Setting) : Setting := { full := s.line :: s.full }

/-- The setting with a word put behind the line in work. -/
def append (s : Setting) (word : List Char) : Setting :=
  let word := String.ofList word
  { s with
    line := if s.line.isEmpty then word else s.line ++ " " ++ word
    used := s.used + s.gap + width word }

/-- The setting with the line in work closed if it is full. -/
def closeIfFull (limit : Nat) (s : Setting) : Setting := if s.used > limit - 2 then s.close else s

/-- The lines of what was set. -/
def lines (s : Setting) : List String := (if s.line.isEmpty then s else s.close).full.reverse

end Setting

/-- Splits a word behind the characters that fit into a room. Only a word that fits into no room at all
gives less than a character. -/
def splitWord (room : Nat) (taken : List Char) : List Char → List Char × List Char
  | [] => (taken.reverse, [])
  | c :: rest =>
    if charWidth c ≤ room then splitWord (room - charWidth c) (c :: taken) rest
    else (taken.reverse, c :: rest)

/-- Splits a word so that its first part fits into a room, and is a character at least if the line is
empty. -/
def breakWord (room : Nat) (onEmptyLine : Bool) (word : List Char) : List Char × List Char :=
  match splitWord room [] word with
  | ([], c :: rest) => if onEmptyLine then ([c], rest) else ([], c :: rest)
  | parts => parts

/-- Sets a word, in as many steps as `fuel` allows. Every other step at least makes the word shorter. -/
def Setting.setWord (limit : Nat) : Nat → Setting → List Char → Setting
  | 0, s, _ => s
  | fuel + 1, s, word =>
    let size := width (String.ofList word)
    let room := limit - s.used - s.gap
    if s.used + s.gap + size ≤ limit then (s.append word).closeIfFull limit
    else if !s.line.isEmpty && room ≤ 2 then s.close.setWord limit fuel word
    else if limit < size then
      let (head, rest) := breakWord room s.line.isEmpty word
      ((s.append head).closeIfFull limit).setWord limit fuel rest
    else (s.close.append word).closeIfFull limit

/-- The lines of a text without line breaks, none wider than `limit` as far as words can be broken. -/
def wrap (limit : Nat) (text : String) : List String :=
  if width text ≤ limit then [text]
  else
    let words := (text.splitOn " ").map String.toList
    let set (s : Setting) (word : List Char) : Setting := s.setWord limit (2 * word.length + 2) word
    (words.foldl set {}).lines

end MessageWire.Text
