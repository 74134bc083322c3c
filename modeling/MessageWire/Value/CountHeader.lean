import MessageWire.Value.Error
/-!
# The count header

A string or a collection starts with a header that says how many bytes or elements follow, or that the
value is null. Its first byte carries a null mark and the width of the count; the count follows in that
many bytes, least significant first, and zero takes none.

`CountHeader.bytes` always picks the least width, while `CountHeader.read` accepts every width, so the
header is where two encodings of one value can differ.
-/

namespace MessageWire

/-- What a header says (`none` for null), and the bytes it takes. -/
structure CountHeader where
  count? : Option Nat
  size : Nat
  deriving DecidableEq

namespace CountHeader

def maxCount : Nat := 0x7fffffff

def maxSize : Nat := 5

def nullFlag : UInt8 := 0x80

/-- The class of the least width that holds a count. -/
def widthClass (count : Nat) : Nat :=
  if count = 0 then 0 else if count < 256 then 1 else if count < 65536 then 2 else 3

def classWidth (widthClass : Nat) : Nat :=
  match widthClass with
  | 0 => 0
  | 1 => 1
  | 2 => 2
  | _ => 4

/-- The size of the least header for a count. Counts too large for any header take the widest. -/
def sizeFor (count : Nat) : Nat := 1 + classWidth (widthClass count)

def bytes : Option Nat → Except ValueError Bytes
  | none => .ok [nullFlag]
  | some count =>
    if count > maxCount then .error (.invalidLength count)
    else .ok (UInt8.ofNat (widthClass count) :: littleEndian (classWidth (widthClass count)) count)

def write (count? : Option Nat) (dst : Bytes) : Except ValueError Nat × Bytes :=
  match bytes count? with
  | .error e => (.error e, dst)
  | .ok data => putFront data dst

def writeTo (count? : Option Nat) (sink : Sink) : Except ValueError Nat × Sink :=
  match bytes count? with
  | .error e => (.error e, sink)
  | .ok data => sink.put data

/-! ### Reading -/

def marksNull (flag : UInt8) : Bool := flag &&& nullFlag ≠ 0

/-- The width that the first byte of a header announces. Its other bits mean nothing. -/
def announcedWidth (flag : UInt8) : Nat := classWidth (flag &&& 3).toNat

def ofCountBytes (raw : Bytes) : Except ValueError CountHeader :=
  let count := ofLittleEndian raw
  if count > maxCount then .error (.invalidLength count) else .ok ⟨some count, 1 + raw.length⟩

def read : Bytes → Except ValueError CountHeader
  | [] => .error (.truncatedHeader 1 0)
  | flag :: rest =>
    if marksNull flag then .ok ⟨none, 1⟩
    else
      let width := announcedWidth flag
      if reaches width rest then ofCountBytes (rest.take width)
      else .error (.truncatedHeader (1 + width) (1 + rest.length))

/-- Reads a header from a source, taking no more bytes than the header has. -/
def readFrom (source : Source) : Except ValueError CountHeader × Source :=
  let first := source.fill 1
  match first.error?, first.bytes with
  | some e, _ => (.error (.io e), first.source)
  | none, [] => (.error (.truncatedHeader 1 0), first.source)
  | none, flag :: _ =>
    if marksNull flag then (.ok ⟨none, 1⟩, first.source)
    else
      let width := announcedWidth flag
      let rest := first.source.fill width
      match rest.error? with
      | some e => (.error (.io e), rest.source)
      | none =>
        if rest.bytes.length < width then
          (.error (.truncatedHeader (1 + width) (1 + rest.bytes.length)), rest.source)
        else (ofCountBytes rest.bytes, rest.source)

/-! ### Views -/

def isNull (h : CountHeader) : Bool := h.count?.isNone

def count (h : CountHeader) : Nat := h.count?.getD 0

/-- The count as a signed word of 32 bits, with `-1` for null. -/
def signed (h : CountHeader) : Int :=
  match h.count? with
  | some count => (BitVec.ofNat 32 count).toInt
  | none => -1

end CountHeader

end MessageWire
