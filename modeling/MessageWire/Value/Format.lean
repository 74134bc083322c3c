import MessageWire.Value.Collection
import MessageWire.Value.Segment
import MessageWire.Value.Utf8
/-!
# Formats

A format is everything there is to know about the encoding of one type: sizes, and writing and reading on
buffers and on streams. Formats of single elements, strings, byte strings and collections are built here.

A type whose values may be null has the richer format; the format of the type without null is the same
one with null refused (`Format.required`).
-/

namespace MessageWire

/-- How the values of a type are encoded and decoded. -/
structure Format (α : Type) where
  /-- Whether the size of an encoding depends on the value. -/
  isVariable : Bool
  minimumSize : Nat
  encodedSize : α → Nat
  /-- Writes a value to the front of a destination: the bytes written, and the destination afterwards. -/
  write : α → Bytes → Except ValueError Nat × Bytes
  writeTo : α → Sink → Except ValueError Nat × Sink
  /-- Reads a value from the front of a buffer: the value and the bytes it took. -/
  read : Bytes → Except ValueError (α × Nat)
  readFrom : Source → Except ValueError (α × Nat) × Source

namespace Format

/-- The format of a type without null, from the one with null. -/
def required {α : Type} (f : Format (Option α)) : Format α where
  isVariable := f.isVariable
  minimumSize := f.minimumSize
  encodedSize v := f.encodedSize (some v)
  write v := f.write (some v)
  writeTo v := f.writeTo (some v)
  read src := present (f.read src)
  readFrom source :=
    let (result, source') := f.readFrom source
    (present result, source')
where
  present : Except ValueError (Option α × Nat) → Except ValueError (α × Nat)
    | .ok (some v, consumed) => .ok (v, consumed)
    | .ok (none, consumed) => .error (.unexpectedNull consumed)
    | .error e => .error e

/-! ### Whole values -/

/-- The bytes of a value: a buffer of its encoded size, as far as it was written to. -/
def toBytes {α : Type} (f : Format α) (v : α) : Except ValueError Bytes :=
  match f.write v (List.replicate (f.encodedSize v) 0) with
  | (.ok written, dst) => .ok (dst.take written)
  | (.error e, _) => .error e

/-- The value, of the type of the given name, that takes up all of `src`. -/
def fromBytes {α : Type} (f : Format α) (name : String) (src : Bytes) : Except ValueError α :=
  match f.read src with
  | .error e => .error e
  | .ok (v, consumed) =>
    if consumed = src.length then .ok v
    else .error (.invalidValue name s!"{src.length - consumed} trailing bytes after value")

/-! ### Single elements -/

/-- The format of a single element: its bytes and nothing else. -/
def scalar {α : Type} (e : ElementCodec α) : Format α where
  isVariable := false
  minimumSize := e.size
  encodedSize _ := e.size
  write v dst := putFront (e.encode v) dst
  writeTo v sink := sink.put (e.encode v)
  read src :=
    if reaches e.size src then (e.decode (src.take e.size)).map (·, e.size)
    else .error (.bufferOverflow e.size src.length)
  readFrom source :=
    match source.takeExactly e.size with
    | (.error err, source') => (.error err, source')
    | (.ok bs, source') => ((e.decode bs).map (·, e.size), source')

/-! ### Byte strings and text -/

def bytesSize (length : Nat) : Nat := CountHeader.sizeFor length + length

/-- Writes a byte string behind a header that counts its bytes. -/
def writeBytes (raw dst : Bytes) : Except ValueError Nat × Bytes :=
  if raw.length ≥ 0x100000000 then (.error (.invalidLength raw.length), dst)
  else if reaches (bytesSize raw.length) dst then
    match CountHeader.bytes (some raw.length) with
    | .error e => (.error e, dst)
    | .ok header => (.ok (bytesSize raw.length), overwrite dst 0 (header ++ raw))
  else (.error (.bufferOverflow (bytesSize raw.length) dst.length), dst)

/-- Writes a byte string to a sink, its header first. -/
def writeBytesTo (raw : Bytes) (sink : Sink) : Except ValueError Nat × Sink :=
  match CountHeader.writeTo (some raw.length) sink with
  | (.error e, sink') => (.error e, sink')
  | (.ok header, sink') =>
    match sink'.put raw with
    | (.error e, sink'') => (.error e, sink'')
    | (.ok body, sink'') => (.ok (header + body), sink'')

def readBytes (src : Bytes) : Except ValueError (Option Bytes × Nat) :=
  match CountHeader.read src with
  | .error e => .error e
  | .ok ⟨none, size⟩ => .ok (none, size)
  | .ok ⟨some count, size⟩ =>
    if reaches (size + count) src then .ok (some ((src.drop size).take count), size + count)
    else .error (.bufferOverflow (size + count) src.length)

def readBytesFrom (source : Source) : Except ValueError (Option Bytes × Nat) × Source :=
  match CountHeader.readFrom source with
  | (.error e, source') => (.error e, source')
  | (.ok ⟨none, size⟩, source') => (.ok (none, size), source')
  | (.ok ⟨some count, size⟩, source') =>
    match source'.takeExactly count with
    | (.error e, source'') => (.error (e.after size), source'')
    | (.ok raw, source'') => (.ok (some raw, size + count), source'')

def optionalBytes : Format (Option Bytes) where
  isVariable := true
  minimumSize := 1
  encodedSize
    | some raw => bytesSize raw.length
    | none => 1
  write
    | some raw => writeBytes raw
    | none => CountHeader.write none
  writeTo
    | some raw => writeBytesTo raw
    | none => CountHeader.writeTo none
  read := readBytes
  readFrom := readBytesFrom

def bytes : Format Bytes := required optionalBytes

def asText : Except ValueError (Option Bytes × Nat) → Except ValueError (Option String × Nat)
  | .error e => .error e
  | .ok (none, consumed) => .ok (none, consumed)
  | .ok (some raw, consumed) =>
    match Utf8.decode? raw with
    | some s => .ok (some s, consumed)
    | none => .error (.invalidValue "String" (((Utf8.fault? raw).map (·.message)).getD ""))

/-- Text, or null: the byte string of its UTF-8 form. -/
def optionalText : Format (Option String) where
  isVariable := true
  minimumSize := 1
  encodedSize v := optionalBytes.encodedSize (v.map Utf8.encode)
  write v := optionalBytes.write (v.map Utf8.encode)
  writeTo v := optionalBytes.writeTo (v.map Utf8.encode)
  read src := asText (readBytes src)
  readFrom source :=
    let (result, source') := readBytesFrom source
    (asText result, source')

def text : Format String := required optionalText

/-! ### Collections -/

/-- How a type of collections holds its members. -/
structure Holder (α β : Type) where
  toList : β → List α
  ofList : List α → β
  /-- Whether the members lie in one piece. If not, they are written one by one. -/
  contiguous : Bool
  toList_ofList : ∀ vs, toList (ofList vs) = vs

def optionalCollection {α β : Type} (h : Holder α β) (c : Collection α) (limits : StagingLimits) :
    Format (Option β) where
  isVariable := true
  minimumSize := 1
  encodedSize
    | some v => c.encodedLength (h.toList v).length
    | none => 1
  write
    | some v, dst =>
      let vs := h.toList v
      if h.contiguous then c.writeAll vs dst else c.writeDeclared vs.length vs dst
    | none, dst => Collection.writeNull dst
  writeTo v sink :=
    let outlet : Outlet := ⟨sink, limits⟩
    let (result, outlet') :=
      match v with
      | some v =>
        let vs := h.toList v
        if h.contiguous then c.writeAllTo vs outlet else c.writeDeclaredTo vs.length vs outlet
      | none => Collection.writeNullTo outlet
    (result, outlet'.sink)
  read src := (c.read src).map hold
  readFrom source :=
    let (result, inlet) := c.readFrom ⟨source, limits⟩
    (result.map hold, inlet.source)
where
  /-- The members that were read, held as the type holds them. -/
  hold : Option (List α) × Nat → Option β × Nat
    | (vs?, consumed) => (vs?.map h.ofList, consumed)

def collection {α β : Type} (h : Holder α β) (c : Collection α) (limits : StagingLimits) : Format β :=
  required (optionalCollection h c limits)

end Format

end MessageWire
