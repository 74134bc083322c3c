import MessageWire.Message.Envelope
import MessageWire.Value.Catalog
/-!
# Messages

A message is an envelope and a payload. `Framing.encode` makes the bytes of one, `Framing.decode` takes
one off the front of a byte string that is all there at once, and `Framing.decodeAll` takes off as many
as there are. The last is what the assembler, which is given its bytes piece by piece, has to agree with.
-/

namespace MessageWire

structure Message where
  envelope : Envelope
  payload : Bytes
  deriving DecidableEq

namespace Message

def routing (m : Message) : Bytes := m.envelope.routing

def wireSize (m : Message) : Nat := m.envelope.total

/-- The value that the payload of a message is the encoding of. -/
def value (m : Message) (catalog : Catalog) (t : Ty) : Except MessageError t.Value × Catalog :=
  let (result, catalog') := catalog.fromBytes t m.payload
  (result.mapError .value, catalog')

end Message

def maxPayload : Nat := 0xffffffff

/-- The bytes of a message: its envelope, then its payload. -/
def Layout.encodeMessage (l : Layout) (routing payload : Bytes) : Except MessageError Bytes :=
  if payload.length > maxPayload then .error (.oversized payload.length maxPayload)
  else (l.encode (.ofNat payload.length) routing).map (· ++ payload)

/-- Puts a message behind the bytes in `buffer`: whether it could be encoded, and the buffer afterwards. -/
def Layout.appendMessage (l : Layout) (routing payload buffer : Bytes) : Except MessageError Unit × Bytes :=
  if payload.length > maxPayload then (.error (.oversized payload.length maxPayload), buffer)
  else
    match l.encode (.ofNat payload.length) routing with
    | .error e => (.error e, buffer)
    | .ok envelope => (.ok (), buffer ++ envelope ++ payload)

namespace Framing

/-- Takes the first message off the front of `src`: the message and what is left, or `none` if it has
not come whole yet. -/
def decode (f : Framing) (remote : String) (src : Bytes) : Except MessageError (Option (Message × Bytes)) :=
  match f.measure src with
  | .error e => .error e
  | .ok none => .ok none
  | .ok (some (sizes, total)) =>
    if reaches total src then
      let overhead := sizes.overhead.toNat
      .ok (some (⟨f.envelope sizes src remote, (src.take total).drop overhead⟩, src.drop total))
    else .ok none

/-- Takes the first message off the front of `buffer`: the message, if it has come whole, and the buffer
afterwards. -/
def takeMessage (f : Framing) (remote : String) (buffer : Bytes) :
    Except MessageError (Option Message) × Bytes :=
  match f.decode remote buffer with
  | .error e => (.error e, buffer)
  | .ok none => (.ok none, buffer)
  | .ok (some (m, rest)) => (.ok (some m), rest)

/-- What taking messages off a byte string gives: the messages, what is left, and the error that ended
it, if it did not end for want of bytes. -/
structure Unframed where
  messages : List Message
  rest : Bytes
  error? : Option MessageError

def decodeAll (f : Framing) (remote : String) (src : Bytes) : Unframed :=
  match f.decode remote src with
  | .error e => ⟨[], src, some e⟩
  | .ok none => ⟨[], src, none⟩
  | .ok (some (m, rest)) =>
    if rest.length < src.length then
      let later := f.decodeAll remote rest
      ⟨m :: later.messages, later.rest, later.error?⟩
    else ⟨[], src, some .stalled⟩
termination_by src.length

end Framing

end MessageWire
