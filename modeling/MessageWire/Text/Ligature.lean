import MessageWire.Text.CharWidth
import MessageWire.Text.Emoji
/-!
# Ligatures

Letters that are drawn as one sign when they meet, by script. A text is read from its end, so that a
ligature is known by its last letter first: `Ligature` says how much of one has been read, and
`Ligature.before` what a further letter in front makes of it.
-/

namespace MessageWire.Text

/-- How much of a ligature has been read, from its end. Where letters must be joined, `joined` says
whether the joiner has been read. -/
inductive Ligature where
  /-- An Arabic alef, which a lam in front of it takes in. -/
  | alef
  /-- A Hebrew lamed, for alef and lamed. -/
  | lamed (joined : Bool)
  /-- A Buginese ya, for `iya`. -/
  | ya (joined : Bool)
  /-- The vowel and the ya of it. -/
  | vowelYa
  /-- A Tifinagh consonant, for two consonants. -/
  | consonant (joined : Bool)
  /-- A consonant with the sign that joins it. -/
  | joinedConsonant
  /-- A Lisu tone that follows another. -/
  | tone
  /-- An Old Turkic i, for `eci`. -/
  | orkhonI (joined : Bool)
  /-- A Khmer letter that can be written under another. -/
  | subscript
  /-- A Kirat Rai e, the end of the longer vowels. -/
  | vowelE
  /-- The two signs for ai, or ai itself. -/
  | vowelAi
  deriving DecidableEq

/-- The columns of a letter, which may be less than none when it takes in what was read, and the ligature
that goes on in front of it. -/
abbrev Drawn := Int × Option Ligature

namespace Ligature

/-! ### Letters -/

/-- The Arabic letters that are an alef, with or without marks. -/
def alefs : CharRanges :=
  [(0x622, 0x623), (0x625, 0x625), (0x627, 0x627), (0x671, 0x673), (0x675, 0x675), (0x773, 0x774),
   (0x870, 0x882)]

/-- The Arabic letters that are a lam, with or without marks. -/
def lams : CharRanges :=
  [(0x644, 0x644), (0x6b5, 0x6b8), (0x76a, 0x76a), (0x8a6, 0x8a6), (0x8c7, 0x8c7)]

/-- Characters without a column that Arabic letters do not join across. -/
def unjoined : CharRanges :=
  [(0x605, 0x605), (0x890, 0x891), (0x8e2, 0x8e2), (0x9be, 0x9be), (0x9d7, 0x9d7), (0xb3e, 0xb3e),
   (0xb57, 0xb57), (0xbbe, 0xbbe), (0xbd7, 0xbd7), (0xcc0, 0xcc0), (0xcc2, 0xcc2), (0xcc7, 0xcc8),
   (0xcca, 0xccb), (0xcd5, 0xcd6), (0xd3e, 0xd3e), (0xd4e, 0xd4e), (0xd57, 0xd57), (0xdcf, 0xdcf),
   (0xddf, 0xddf), (0x1160, 0x11ff), (0x1715, 0x1715), (0x1734, 0x1734), (0x180e, 0x180e),
   (0x1b35, 0x1b35), (0x1b3b, 0x1b3b), (0x1b3d, 0x1b3d), (0x1b43, 0x1b44), (0x1baa, 0x1baa),
   (0x1bf2, 0x1bf3), (0x200c, 0x200d), (0x2065, 0x2069), (0x302e, 0x302f), (0x3164, 0x3164),
   (0xa8fa, 0xa8fa), (0xa953, 0xa953), (0xa9c0, 0xa9c0), (0xd7b0, 0xd7c6), (0xd7cb, 0xd7fb),
   (0xff9e, 0xffa0), (0xfff0, 0xfff8), (0x111c0, 0x111c0), (0x111c2, 0x111c3), (0x11235, 0x11235),
   (0x1133e, 0x1133e), (0x1134d, 0x1134d), (0x11357, 0x11357), (0x113b8, 0x113b8), (0x113c2, 0x113c2),
   (0x113c5, 0x113c5), (0x113c7, 0x113c9), (0x113cf, 0x113cf), (0x113d1, 0x113d1), (0x114b0, 0x114b0),
   (0x114bd, 0x114bd), (0x115af, 0x115af), (0x116b6, 0x116b6), (0x11930, 0x11930), (0x1193d, 0x1193d),
   (0x1193f, 0x1193f), (0x11941, 0x11941), (0x11a3a, 0x11a3a), (0x11a84, 0x11a89), (0x11d46, 0x11d46),
   (0x11f02, 0x11f02), (0x11f41, 0x11f41), (0x16ff0, 0x16ff1), (0x1d165, 0x1d166), (0x1d16d, 0x1d172),
   (0xe0000, 0xe0000), (0xe0002, 0xe001f), (0xe0080, 0xe00ff), (0xe01f0, 0xe0fff)]

/-- The Khmer letters that take no column when they are written under another. -/
def subscripts : CharRanges :=
  [(0x1780, 0x1782), (0x1784, 0x1787), (0x1789, 0x178c), (0x178e, 0x1793), (0x1795, 0x1798),
   (0x179b, 0x179d), (0x17a0, 0x17a0), (0x17a2, 0x17a2), (0x17a7, 0x17a7), (0x17ab, 0x17ac),
   (0x17af, 0x17af)]

def consonants : CharRanges := [(0x2d31, 0x2d65), (0x2d6f, 0x2d6f)]

/-- The Lisu tones that another can follow. -/
def firstTones : CharRanges := [(0xa4f8, 0xa4fb)]

/-- The Lisu tones that follow another. -/
def secondTones : CharRanges := [(0xa4fc, 0xa4fd)]

/-- Marks that are not shown and that may stand anywhere in a ligature. -/
def unseen : CharRanges :=
  [(0x34f, 0x34f), (0x17b4, 0x17b5), (0x180b, 0x180d), (0x180f, 0x180f), (0xfe00, 0xfe0f),
   (0xe0100, 0xe01ef)]

/-! ### Reading towards the front -/

/-- The ligature that a letter may be the end of. -/
def endingIn (c : Char) : Option Ligature :=
  match c.toNat with
  | 0x5dc => some (.lamed false)
  | 0x1a10 => some (.ya false)
  | 0x10c03 => some (.orkhonI false)
  | 0x16d67 => some .vowelE
  | 0x16d68 => some .vowelAi
  | _ =>
    if alefs.covers c then some .alef
    else if subscripts.covers c then some .subscript
    else if consonants.covers c then some (.consonant false)
    else if secondTones.covers c then some .tone
    else none

/-- A ligature with the joiner read. -/
def join : Ligature → Ligature
  | lamed _ => lamed true
  | ya _ => ya true
  | consonant _ => consonant true
  | orkhonI _ => orkhonI true
  | l => l

/-- Whether a character leaves a ligature as it is, and takes no column. -/
def passes : Ligature → Char → Bool
  | alef, c => charWidth c == 0 && !unjoined.covers c
  | _, c => unseen.covers c

/-- What a letter makes of the ligature that it stands in front of, if it belongs to it. -/
def take : Ligature → Char → Option Drawn
  | alef, c => if lams.covers c then some (0, none) else none
  | lamed true, '\u05d0' => some (0, none)
  | ya true, '\u1a17' => some (0, some vowelYa)
  | vowelYa, '\u1a15' => some (0, none)
  | subscript, '\u17d2' => some (-1, none)
  | consonant joined, c =>
    if c = '\u2d7f' then some (1, some joinedConsonant)
    else if joined && consonants.covers c then some (0, none)
    else none
  | joinedConsonant, c => if consonants.covers c then some (-1, none) else none
  | tone, c => if firstTones.covers c then some (0, none) else none
  | orkhonI true, c => if c.toNat = 0x10c32 then some (0, none) else none
  | vowelE, c =>
    match c.toNat with
    | 0x16d63 => some (0, none)
    | 0x16d67 => some (0, some vowelAi)
    | 0x16d68 => some (1, some vowelE)
    | 0x16d69 => some (0, none)
    | _ => none
  | vowelAi, c => if c.toNat = 0x16d63 then some (0, none) else none
  | _, _ => none

/-- What a character in front of a ligature makes of it, if it stands in one. -/
def before (l : Ligature) (c : Char) : Option Drawn :=
  if l ≠ alef ∧ c = Emoji.joiner then some (0, some l.join)
  else if l.passes c then some (0, some l)
  else l.take c

end Ligature

end MessageWire.Text
