import MessageWire.Command.Arguments
import MessageWire.Message.Basic
import MessageWire.Text
import MessageWire.Text.Table
import MessageWire.Value.Utf8
/-!
# Listings

The messages of a capture as they are listed: as lines of JSON, as a table, as plain lines, or as nothing
but their payloads.
-/

namespace MessageWire

/-- A message of a capture, with its place in it, and whether it was put together from several
receives. -/
structure Listed where
  index : Nat
  message : Message
  assembled : Bool

namespace Listed

/-- Bytes as they are shown: as text if they are any, else by their number. -/
def preview (bs : Bytes) : String := (Utf8.decode? bs).getD s!"<binary {bs.length} bytes>"

def routing (l : Listed) : String := preview l.message.routing

def payload (l : Listed) : String := preview l.message.payload

def payloadSize (l : Listed) : Nat := l.message.envelope.sizes.payload.toNat

def json (l : Listed) : String :=
  let fields :=
    [("index", toString l.index), ("remote", Text.json l.message.envelope.remote),
      ("routing", Text.json l.routing), ("payload_size", toString l.payloadSize),
      ("wire_size", toString l.message.wireSize), ("assembled", toString l.assembled),
      ("payload", Text.json l.payload)]
  "\x7b" ++ ",".intercalate (fields.map fun (name, value) => Text.json name ++ ":" ++ value) ++ "\x7d"

def pretty (l : Listed) : String :=
  s!"#{l.index} remote={l.message.envelope.remote} routing={l.routing} size={l.payloadSize} " ++
    s!"wire={l.message.wireSize} assembled={l.assembled} payload={l.payload}"

def cells (l : Listed) : List String :=
  [toString l.index, l.routing, toString l.payloadSize, toString l.message.wireSize, toString l.assembled,
    l.payload]

def table (ls : List Listed) : Text.Table :=
  { headings := ["#", "ROUTING", "SIZE", "WIRE", "ASSEMBLED", "PAYLOAD"], rows := ls.map cells }

def linesOf (texts : List String) : Bytes := texts.flatMap fun s => Utf8.encode s ++ [10]

def bytes (format : ListingFormat) (ls : List Listed) : Bytes :=
  match format with
  | .json => linesOf (ls.map json)
  | .table => linesOf [(table ls).render]
  | .pretty => linesOf (ls.map pretty)
  | .raw => ls.flatMap (·.message.payload)

end Listed

end MessageWire
