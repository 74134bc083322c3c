import MessageWire.Text.Ligature
/-!
# Widths of text

How many columns a text takes on a terminal. That is the sum over its characters, except where several
are drawn as one: emoji of more than one character, ligatures, and characters that a selector behind them
asks to be drawn otherwise. A text is read from its end, because what follows a character decides how it
is drawn.
-/

namespace MessageWire.Text

/-- What a selector asks of the character in front of it. -/
inductive Selector where
  | text
  | picture
  /-- A quotation mark as wide as an ideograph. -/
  | fullWidth
  deriving DecidableEq

/-- What has been read, as far as the characters in front of it can make one picture or sign with it. -/
inductive Ahead where
  | plain
  | skinTone
  /-- One of the letters that name a region in pairs. -/
  | indicator
  /-- Several of them. -/
  | indicators
  | emoji
  /-- A joiner, with an emoji behind it. -/
  | joined
  /-- A keycap in front of a joiner. -/
  | joinedKeycap
  /-- A letter for a region in front of a joiner. -/
  | joinedIndicator
  /-- An even or odd number of them, more than one. -/
  | joinedIndicators (even : Bool)
  /-- The end of a tag in front of a joiner, with so many letters in front of it. -/
  | tagLetters (count : Nat)
  /-- The same, with so many digits in front of the letters. -/
  | tagDigits (count : Nat)
  | ligature (l : Ligature)
  deriving DecidableEq

namespace Selector

/-- What a character selects, if it is a selector. -/
def ofChar? (c : Char) : Option Selector :=
  if c = Emoji.textSelector then some text
  else if c = Emoji.pictureSelector then some picture
  else if c = '\ufe01' then some fullWidth
  else none

/-- The quotation marks that come in two widths. -/
def marks : CharRanges := [(0x2018, 0x2019), (0x201c, 0x201d)]

/-- What a selector makes of the character in front of it, if it applies. -/
def before (s : Selector) (c : Char) : Option (Int × Ahead) :=
  match s with
  | text => if Emoji.textable.covers c then some (1, .plain) else none
  | picture => if Emoji.picturable.covers c then some (2, .emoji) else none
  | fullWidth => if marks.covers c then some (2, .plain) else none

end Selector

namespace Ahead

/-- What a character is when nothing behind it has to do with it. -/
def ofChar (c : Char) : Int × Ahead :=
  if c.toNat ≤ 0xa0 then (1, .plain)
  else if Emoji.isIndicator c then (1, .indicator)
  else if Emoji.isSkinTone c then (2, .skinTone)
  else if Emoji.pictures.covers c then (2, .emoji)
  else
    match Ligature.endingIn c with
    | some l => (1, .ligature l)
    | none => (charWidth c, .plain)

/-- What the part of a flag in front of a tag is, with `letters` and `digits` read so far. -/
def beforeTag (letters digits : Nat) (c : Char) : Option (Int × Ahead) :=
  if c = Emoji.blackFlag then if 3 ≤ letters ∨ digits = 3 then some (0, .emoji) else none
  else if Emoji.isTagDigit c then
    if letters ≤ 4 ∧ digits ≤ 2 then some (0, .tagDigits (digits + 1)) else none
  else if Emoji.isTagLetter c then
    if letters ≤ 5 ∧ digits = 0 then some (0, .tagLetters (letters + 1)) else none
  else none

/-- What a character makes of what was read, if it goes with it. -/
def before (a : Ahead) (c : Char) : Option (Int × Ahead) :=
  match a with
  | plain => none
  | joinedKeycap => none
  | ligature l => (l.before c).map fun (columns, l?) => (columns, (l?.map ligature).getD plain)
  | skinTone =>
    if Emoji.toned.covers c then some (0, emoji)
    else if c = Emoji.joiner then some (0, joined)
    else none
  | indicator => if Emoji.isIndicator c then some (1, indicators) else none
  | indicators =>
    if Emoji.isIndicator c then some (1, indicators)
    else if c = Emoji.joiner then some (0, joined)
    else none
  | emoji => if c = Emoji.joiner then some (0, joined) else none
  | joined =>
    if c = Emoji.keycap then some (0, joinedKeycap)
    else if Emoji.isIndicator c then some (1, joinedIndicator)
    else if Emoji.isSkinTone c then some (0, skinTone)
    else if c = Emoji.tagEnd then some (0, tagLetters 0)
    else if Emoji.pictures.covers c then some (0, emoji)
    else none
  | joinedIndicator => if Emoji.isIndicator c then some (-1, joinedIndicators true) else none
  | joinedIndicators even =>
    if Emoji.isIndicator c then some (if even then 3 else -1, joinedIndicators !even)
    else if c = Emoji.joiner then some (0, joined)
    else none
  | tagLetters n => beforeTag n 0 c
  | tagDigits n => beforeTag 0 n c

end Ahead

/-- What has been read of a text from its end: what it may be the rest of, and the selector in front of
it, if any. -/
structure Reading where
  ahead : Ahead := .plain
  selector? : Option Selector := none
  deriving DecidableEq

namespace Reading

/-- The reading with a selector in front. Only ligatures, and pictures at the other side of a joiner, are
still waited for then. -/
def select (r : Reading) (s : Selector) : Reading :=
  match r.ahead, s with
  | .ligature _, _ | .joined, .picture | .joinedKeycap, .picture => { r with selector? := some s }
  | _, _ => { selector? := some s }

/-- The reading after a selector that came to nothing. -/
def unselect (r : Reading) : Reading :=
  match r.ahead with
  | .ligature l => { ahead := .ligature l }
  | _ => {}

/-- The columns that a character adds in front of what was read, if no selector applies. -/
def unselected (r : Reading) (c : Char) : Int × Reading :=
  match Selector.ofChar? c with
  | some s => (0, r.select s)
  | none =>
    let (columns, ahead) := if c.toNat ≤ 0xa0 then (1, .plain) else (r.ahead.before c).getD (Ahead.ofChar c)
    (columns, { ahead })

/-- The columns that a character adds in front of what was read. A picture at the other side of a joiner
has had its columns already. -/
def step (r : Reading) (c : Char) : Int × Reading :=
  match r.selector? with
  | none => r.unselected c
  | some s =>
    match s.before c with
    | some (columns, ahead) =>
      let had := r.ahead = .joined ∨ r.ahead = .joinedKeycap
      (if had then 0 else columns, { ahead })
    | none => r.unselect.unselected c

end Reading

/-- The columns that characters take, and what they may be the rest of. -/
def measure (cs : List Char) : Int × Reading :=
  cs.foldr (fun c (n, r) => let (columns, r) := r.step c; (n + columns, r)) (0, {})

/-- The columns that a text without line breaks takes. -/
def width (s : String) : Nat := (measure s.toList).1.toNat

end MessageWire.Text
