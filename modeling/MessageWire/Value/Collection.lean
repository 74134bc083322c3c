import MessageWire.Value.Element
import MessageWire.Value.CountHeader
/-!
# Collections

A collection is a count header followed by that many elements; null is a header alone. This module writes
collections from lists, from sequences that declare a length, and from sequences whose length shows only
at their end, and reads them into new lists, into destinations of fixed size and into growing ones. Every
operation has a form for buffers and a form for streams.

`Collection.writeAll` is the plain encoding. The other writers come to the same bytes by other ways, and
the readers all read what it writes.
-/

namespace MessageWire

/-- The encoding of collections whose elements are encoded by `codec`. Elements take at least a byte. -/
structure Collection (α : Type) where
  codec : Codec α
  size_pos : 0 < codec.size

/-- What a read into a destination tells: how many elements came (`none` for null), and how many bytes
of the source they took. -/
structure ReadOutcome where
  elements? : Option Nat
  consumed : Nat
  deriving DecidableEq

def ReadOutcome.null : ReadOutcome := ⟨none, 1⟩

/-- What happens to the members that a growing destination has before it is read into. -/
inductive FillMode where
  | overwrite
  | append
  deriving DecidableEq

def FillMode.fill {α : Type} (mode : FillMode) (members read : List α) : List α :=
  match mode with
  | .overwrite => read
  | .append => members ++ read

namespace Collection

variable {α : Type}

/-- The collection encoding for a codec, unless its elements take no bytes. -/
def ofCodec? (codec : Codec α) : Option (Collection α) :=
  if h : 0 < codec.size then some ⟨codec, h⟩ else none

def elementSize (c : Collection α) : Nat := c.codec.size

/-- The bytes of `count` elements, as a word holds them. -/
def bodyLength (c : Collection α) (count : Nat) : Except ValueError Nat := c.codec.bytesOf count

/-- The size of a collection of `count` elements, as far as a machine word holds it. -/
def encodedLength (c : Collection α) (count : Nat) : Nat :=
  saturate (CountHeader.sizeFor count + saturate (count * c.elementSize))

/-! ### Writing into buffers -/

def writeNull (dst : Bytes) : Except ValueError Nat × Bytes := CountHeader.write none dst

/-- Writes a list. Nothing is written unless all of it fits. -/
def writeAll (c : Collection α) (vs : List α) (dst : Bytes) : Except ValueError Nat × Bytes :=
  match CountHeader.bytes (some vs.length), c.bodyLength vs.length with
  | .error e, _ => (.error e, dst)
  | .ok _, .error e => (.error e, dst)
  | .ok header, .ok _ => putFront (header ++ c.codec.encodeAll vs) dst

/-- The elements of `vs` that fit whole into `room` bytes. -/
def fitting (c : Collection α) (room : Nat) (vs : List α) : List α := vs.take (room / c.elementSize)

/-- Writes a sequence that declares `declared` members and yields `vs`: the header, then the members one by one as far
as they fit. -/
def writeDeclared (c : Collection α) (declared : Nat) (vs : List α) (dst : Bytes) :
    Except ValueError Nat × Bytes :=
  match CountHeader.write (some declared) dst with
  | (.error e, dst') => (.error e, dst')
  | (.ok header, dst') =>
    match c.bodyLength declared with
    | .error e => (.error e, dst')
    | .ok body =>
      let wanted := vs.take declared
      let written := c.fitting (dst.length - header) wanted
      let dst'' := overwrite dst' header (c.codec.element.encodeList written)
      if written.length < wanted.length then
        (.error (.bufferOverflow (saturate (header + body)) dst.length), dst'')
      else if vs.length ≠ declared then (.error (.lengthMismatch declared vs.length), dst'')
      else (.ok (header + body), dst'')

/-- Writes a sequence whose length shows at its end: behind room for the header that `upper?` asks for, then moved to
the header needed. -/
def writeUncounted (c : Collection α) (upper? : Option Nat) (vs : List α) (dst : Bytes) :
    Except ValueError Nat × Bytes :=
  let reserved := (upper?.map CountHeader.sizeFor).getD CountHeader.maxSize
  let written := c.fitting (dst.length - reserved) vs
  let body := written.length * c.elementSize
  let dst' := if written.isEmpty then dst else overwrite dst reserved (c.codec.element.encodeList written)
  if written.length < vs.length then
    (.error (.bufferOverflow (reserved + body + c.elementSize) dst.length), dst')
  else if vs.length > CountHeader.maxCount then (.error (.invalidLength vs.length), dst')
  else
    let header := CountHeader.sizeFor vs.length
    match if body > 0 then moveRange dst' reserved body header else .ok dst' with
    | .error e => (.error e, dst')
    | .ok dst'' =>
      match CountHeader.write (some vs.length) dst'' with
      | (.error e, dst''') => (.error e, dst''')
      | (.ok header, dst''') => (.ok (header + body), dst''')

/-! ### Writing to streams -/

def writeNullTo (o : Outlet) : Except ValueError Nat × Outlet :=
  let (result, sink) := CountHeader.writeTo none o.sink
  (result, { o with sink := sink })

/-- Writes the header for a count to the sink of an outlet. -/
def writeCountTo (count : Nat) (o : Outlet) : Except ValueError Nat × Outlet :=
  let (result, sink) := CountHeader.writeTo (some count) o.sink
  (result, { o with sink := sink })

def writeAllTo (c : Collection α) (vs : List α) (o : Outlet) : Except ValueError Nat × Outlet :=
  match writeCountTo vs.length o with
  | (.error e, o') => (.error e, o')
  | (.ok header, o') =>
    match c.codec.writeAll vs o' with
    | (.error e, o'') => (.error e, o'')
    | (.ok body, o'') => (.ok (header + body), o'')

/-- Encodes the members of one span, taken from those that are left. A sequence that runs out yielded fewer than
declared. -/
def encodeDeclaredSpan (c : Collection α) (declared yielded : Nat) (span : Span) (left : List α) :
    Except ValueError Bytes × List α :=
  let count := span.length / c.elementSize
  if reaches count left then (.ok (c.codec.element.encodeList (left.take count)), left.drop count)
  else (.error (.lengthMismatch declared yielded), [])

/-- Writes a sequence that declares `declared` members and yields `vs` to a sink. Nothing is written if the
length of the declared members is no word. -/
def writeDeclaredTo (c : Collection α) (declared : Nat) (vs : List α) (o : Outlet) :
    Except ValueError Nat × Outlet :=
  match c.bodyLength declared with
  | .error e => (.error e, o)
  | .ok total =>
    match writeCountTo declared o with
    | (.error e, o') => (.error e, o')
    | (.ok header, o') =>
      match o'.stage total c.elementSize (c.encodeDeclaredSpan declared vs.length) vs with
      | (.error e, o'', _) => (.error e, o'')
      | (.ok body, o'', []) => (.ok (header + body), o'')
      | (.ok _, o'', _ :: _) => (.error (.lengthMismatch declared vs.length), o'')

/-- Writes a sequence whose length shows only at its end to a sink. What is written cannot be changed
afterwards, so the sequence is counted first. -/
def writeUncountedTo (c : Collection α) (vs : List α) (o : Outlet) : Except ValueError Nat × Outlet :=
  c.writeDeclaredTo vs.length vs o

/-! ### Reading from buffers -/

/-- The bytes of the elements behind a header, and where they end. -/
def body (c : Collection α) (header : CountHeader) (src : Bytes) : Except ValueError (Bytes × Nat) :=
  match c.bodyLength header.count with
  | .error e => .error e
  | .ok length =>
    let stop := header.size + length
    if reaches stop src then .ok ((src.drop header.size).take length, stop)
    else .error (.bufferOverflow (saturate stop) src.length)

/-- Reads a collection: its elements, or `none` for null, and the bytes it took. -/
def read (c : Collection α) (src : Bytes) : Except ValueError (Option (List α) × Nat) := do
  let header ← CountHeader.read src
  if header.isNull then return (none, header.size)
  let (bytes, stop) ← c.body header src
  let vs ← c.codec.decodeAll bytes
  return (some vs, stop)

/-- The failure of a read into `capacity` slots: they are too few, or the length of the whole is no word. -/
def shortage (c : Collection α) (count size capacity : Nat) : ValueError :=
  match c.bodyLength count with
  | .error e => e
  | .ok body => .destinationTooSmall count capacity (saturate (size + body))

/-- Reads a collection onto the front of a destination of fixed size. -/
def readOnto (c : Collection α) (src : Bytes) (dst : List α) : Except ValueError ReadOutcome × List α :=
  match CountHeader.read src with
  | .error e => (.error e, dst)
  | .ok ⟨none, _⟩ => (.ok .null, dst)
  | .ok ⟨some count, size⟩ =>
    if dst.length < count then (.error (c.shortage count size dst.length), dst)
    else
      match c.body ⟨some count, size⟩ src with
      | .error e => (.error e, dst)
      | .ok (bytes, stop) =>
        match c.codec.decodeOnto bytes dst with
        | (.error e, dst') => (.error e, dst')
        | (.ok (), dst') => (.ok ⟨some count, stop⟩, dst')

/-- Puts what was read into a growing destination. Null and failures leave it as it was. -/
def settle (mode : FillMode) (members : List α) :
    Except ValueError (Option (List α) × Nat) → Except ValueError ReadOutcome × List α
  | .error e => (.error e, members)
  | .ok (none, consumed) => (.ok ⟨none, consumed⟩, members)
  | .ok (some vs, consumed) => (.ok ⟨some vs.length, consumed⟩, mode.fill members vs)

def readInto (c : Collection α) (src : Bytes) (members : List α) (mode : FillMode) :
    Except ValueError ReadOutcome × List α :=
  settle mode members (c.read src)

/-! ### Reading from streams -/

def readCountFrom (i : Inlet) : Except ValueError CountHeader × Inlet :=
  let (result, source) := CountHeader.readFrom i.source
  (result, { i with source := source })

/-- Decodes one span onto the elements that came before it, which are kept last one first. -/
def decodeSpan (c : Collection α) (_span : Span) (bs : Bytes) (done : List α) :
    Except ValueError Unit × List α :=
  match c.codec.decodeAll bs with
  | .ok vs => (.ok (), vs.reverse ++ done)
  | .error e => (.error e, done)

def readElementsFrom (c : Collection α) (count : Nat) (i : Inlet) :
    Except ValueError (List α × Nat) × Inlet :=
  match c.bodyLength count with
  | .error e => (.error e, i)
  | .ok total =>
    match i.stage total c.elementSize c.decodeSpan [] with
    | (.error e, i', _) => (.error e, i')
    | (.ok body, i', done) => (.ok (done.reverse, body), i')

def readFrom (c : Collection α) (i : Inlet) : Except ValueError (Option (List α) × Nat) × Inlet :=
  match readCountFrom i with
  | (.error e, i') => (.error e, i')
  | (.ok ⟨none, size⟩, i') => (.ok (none, size), i')
  | (.ok ⟨some count, size⟩, i') =>
    match c.readElementsFrom count i' with
    | (.error e, i'') => (.error (e.after size), i'')
    | (.ok (vs, body), i'') => (.ok (some vs, size + body), i'')

/-- Reads a collection from a source onto the front of a destination of fixed size. If that is too
small, only the header has been taken. -/
def readOntoFrom (c : Collection α) (dst : List α) (i : Inlet) :
    Except ValueError ReadOutcome × List α × Inlet :=
  match readCountFrom i with
  | (.error e, i') => (.error e, dst, i')
  | (.ok ⟨none, _⟩, i') => (.ok .null, dst, i')
  | (.ok ⟨some count, size⟩, i') =>
    if dst.length < count then (.error (c.shortage count size dst.length), dst, i')
    else
      match c.codec.readOnto (dst.take count) i' with
      | (.error e, i'', front) => (.error (e.after size), front ++ dst.drop count, i'')
      | (.ok body, i'', front) => (.ok ⟨some count, size + body⟩, front ++ dst.drop count, i'')

/-- Reads a collection from a source into a growing destination. -/
def readIntoFrom (c : Collection α) (members : List α) (mode : FillMode) (i : Inlet) :
    Except ValueError ReadOutcome × List α × Inlet :=
  let (result, i') := c.readFrom i
  let (outcome, members') := settle mode members result
  (outcome, members', i')

end Collection

end MessageWire
