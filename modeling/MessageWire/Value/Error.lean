import MessageWire.Stream
/-!
# Failures of encoding and decoding values

Each constructor is one cause. Three of them tell how much of a stream was used up before the failure;
`ValueError.after` moves that count when the failing read was not the first. One of them is no answer of a call:
a buffer that is too long to be made, `capacityOverflow`, ends the process.
-/

namespace MessageWire

def maxWord : Nat := 0xffffffffffffffff

def saturate (n : Nat) : Nat := min n maxWord

/-- Why a value could not be encoded or decoded. -/
inductive ValueError where
  /-- The source ended inside a count header. -/
  | truncatedHeader (needed available : Nat)
  /-- A count that the header cannot carry. -/
  | invalidLength (length : Nat)
  /-- A buffer is too short for what should be written to or read from it. -/
  | bufferOverflow (needed available : Nat)
  /-- A stream ended before all the announced bytes came. -/
  | truncatedStream (expected actual consumed : Nat)
  /-- A destination of fixed size is too small; `consumed` is the size of the whole encoding. -/
  | destinationTooSmall (required capacity consumed : Nat)
  /-- Null was decoded where a value is required. -/
  | unexpectedNull (consumed : Nat)
  /-- A sequence yielded another number of elements than it declared. -/
  | lengthMismatch (declared actual : Nat)
  /-- The bytes are no value of the type. -/
  | invalidValue (type reason : String)
  /-- No format is known for the type. -/
  | unsupportedType (type : String)
  /-- The type has a format that may not be replaced. -/
  | alreadyBound (type : String)
  | io (e : IoError)
  /-- A buffer that no memory can hold was asked for. This ends the process. -/
  | capacityOverflow
  deriving DecidableEq

namespace ValueError

def message : ValueError → String
  | truncatedHeader needed available =>
    s!"truncated length header ({available} of {needed} bytes available)"
  | invalidLength length => s!"collection length {length} exceeds the encodable maximum"
  | bufferOverflow needed available => s!"buffer overflow ({needed} bytes needed, {available} available)"
  | truncatedStream expected actual consumed =>
    s!"truncated stream (expected {expected} bytes, got {actual}; {consumed} bytes consumed)"
  | destinationTooSmall required capacity consumed =>
    s!"destination too small ({required} elements, capacity {capacity}; encoding spans {consumed} bytes)"
  | unexpectedNull _ => "null collection decoded into a non-optional value"
  | lengthMismatch declared actual =>
    s!"length mismatch (declared {declared} elements, produced {actual})"
  | invalidValue type reason => s!"invalid {type} value: {reason}"
  | unsupportedType type => s!"no binary parser registered for type {type}"
  | alreadyBound type => s!"parser for type {type} is already bound"
  | io e => "serial I/O error: " ++ e.message
  | capacityOverflow => "capacity overflow"

/-- The bytes used up before the error, if the error tells. -/
def consumed? : ValueError → Option Nat
  | truncatedStream _ _ consumed => some consumed
  | destinationTooSmall _ _ consumed => some consumed
  | unexpectedNull consumed => some consumed
  | _ => none

/-- The error as it looks from `before` bytes further back: a count of used bytes grows by them. -/
def after (before : Nat) : ValueError → ValueError
  | truncatedStream expected actual consumed =>
    truncatedStream expected actual (saturate (consumed + before))
  | destinationTooSmall required capacity consumed =>
    destinationTooSmall required capacity (saturate (consumed + before))
  | unexpectedNull consumed => unexpectedNull (saturate (consumed + before))
  | e => e

end ValueError

/-! ### Destinations and whole transfers -/

/-- Puts `data` at the front of `dst`, whose other bytes stay. A destination that is too short is
left as it was. -/
def putFront (data dst : Bytes) : Except ValueError Nat × Bytes :=
  if reaches data.length dst then (.ok data.length, overwrite dst 0 data)
  else (.error (.bufferOverflow data.length dst.length), dst)

/-- Moves the `count` bytes at `start` so that they start at `target`. The two ranges may overlap. -/
def moveRange (buffer : Bytes) (start count target : Nat) : Except ValueError Bytes :=
  let stop := saturate (max start target + count)
  if stop > buffer.length then .error (.bufferOverflow stop buffer.length)
  else .ok (overwrite buffer target ((buffer.drop start).take count))

/-- Writes all of `data` to a sink, with failures as failures of encoding. -/
def Sink.put (s : Sink) (data : Bytes) : Except ValueError Nat × Sink :=
  match s.writeAll data with
  | (.ok (), s') => (.ok data.length, s')
  | (.error e, s') => (.error (.io e), s')

/-- Takes exactly `want` bytes from a source. A source that ends early has been used up to its end,
and the error says how far that was. -/
def Source.takeExactly (s : Source) (want : Nat) : Except ValueError Bytes × Source :=
  let got := s.fill want
  match got.error? with
  | some e => (.error (.io e), got.source)
  | none =>
    if got.bytes.length < want then
      (.error (.truncatedStream want got.bytes.length got.bytes.length), got.source)
    else (.ok got.bytes, got.source)

end MessageWire
