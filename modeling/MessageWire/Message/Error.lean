import MessageWire.Text
import MessageWire.Value.Error
/-!
# Failures of framing

Each constructor is one cause for a message not to be sent, received or taken apart. Few of them are
fatal, which means that whoever raised the error refuses to go on.
-/

namespace MessageWire

/-- Why a message could not be framed or taken out of its frame. -/
inductive MessageError where
  /-- A receive that starts a message has fewer bytes than the shortest envelope. -/
  | tooShort (received minimum : Nat)
  /-- The check in an envelope is not the one that its payload size asks for. -/
  | checkMismatch (payload check expected : UInt32)
  /-- The message is larger than allowed. -/
  | oversized (size max : Nat)
  /-- The sizes in an envelope have no sum. -/
  | overflow (payload overhead : UInt32)
  /-- The envelope has no room for so much routing. -/
  | routingTooLarge (size max : Nat)
  /-- A receive claims more bytes than the scratch buffer has. -/
  | scratchOverrun (offset received capacity : Nat)
  /-- The assembler has been given up. -/
  | disposed
  /-- The assembler has met a fatal error before. -/
  | poisoned
  /-- The stream ended inside a message. -/
  | incomplete (received expected : Nat)
  /-- The payload is no value, or the value could not become a payload. -/
  | value (e : ValueError)
  | io (e : IoError)
  /-- The stream ended between two messages. -/
  | closed
  /-- A layout announced a message of no bytes, of which no stream could ever be rid. -/
  | stalled
  /-- A layout announced fewer bytes than it needed to say so. -/
  | overfull
  deriving DecidableEq

namespace MessageError

def message : MessageError → String
  | tooShort received minimum =>
    s!"message too short ({received} bytes, minimum envelope is {minimum})"
  | checkMismatch payload check expected =>
    s!"envelope size check mismatch (payload {payload.toNat}, check {Text.hex 8 check.toNat}, " ++
      s!"expected {Text.hex 8 expected.toNat})"
  | oversized size max => s!"message too large ({size} bytes, max {max})"
  | overflow payload overhead =>
    s!"message size overflow (payload {payload.toNat} + overhead {overhead.toNat})"
  | routingTooLarge size max => s!"routing metadata too large ({size} bytes, max {max})"
  | scratchOverrun offset received capacity =>
    s!"receive of {received} bytes at offset {offset} exceeds scratch capacity {capacity}"
  | disposed => "contiguous buffer has been disposed"
  | poisoned => "contiguous buffer is poisoned by an earlier fatal error"
  | incomplete received expected => s!"stream ended mid-message ({received} of {expected} bytes)"
  | value e => "payload serialization failed: " ++ e.message
  | io e => "frame I/O error: " ++ e.message
  | closed => "connection closed"
  | stalled => "message of no bytes"
  | overfull => "message shorter than its envelope"

def isFatal : MessageError → Bool
  | overflow _ _ => true
  | poisoned => true
  | _ => false

end MessageError

end MessageWire
