import MessageWire.Main
import MessageWire.Message.Description
import MessageWire.Message.Receiver
import MessageWire.Proofs.Streams
import MessageWire.Proofs.Framing.Prefix
import MessageWire.Proofs.Framing.Assembly
import MessageWire.Proofs.Framing.Chunking
import MessageWire.Proofs.Framing.Reception
import MessageWire.Proofs.Value.Header
import MessageWire.Proofs.Value.Elements
import MessageWire.Proofs.Value.Staging
import MessageWire.Proofs.Value.Reading
import MessageWire.Proofs.Value.Writing
import MessageWire.Proofs.Value.Stock
import MessageWire.Proofs.Catalog.Resolution
import MessageWire.Proofs.Catalog.Coding
import MessageWire.Proofs.Framing.Standard
import MessageWire.Proofs.Framing.Operations
import MessageWire.Proofs.Framing.Safety
import MessageWire.Proofs.Value.Streaming
import MessageWire.Proofs.Framing.Sending
import MessageWire.Proofs.Exchange
import MessageWire.Proofs.Framing.Absorption
import MessageWire.Proofs.Framing.Renewal
import MessageWire.Proofs.Framing.Recycling
import MessageWire.Proofs.Value.Progress
import MessageWire.Proofs.Catalog.Permanence
import MessageWire.Proofs.Catalog.Priority
import MessageWire.Proofs.Value.Limits
import MessageWire.Proofs.Framing.Log
import MessageWire.Proofs.Framing.Agreement
import MessageWire.Proofs.Value.HostOrder
import MessageWire.Proofs.Framing.Polling
import MessageWire.Proofs.Framing.Emission
import MessageWire.Proofs.Value.Canonical
import MessageWire.Proofs.Catalog.Canonical
import MessageWire.Proofs.Framing.Ownership
import MessageWire.Proofs.Framing.Insertion
import MessageWire.Proofs.Framing.Strictness
import MessageWire.Proofs.Framing.Corruption
import MessageWire.Proofs.Framing.Ceiling
import MessageWire.Proofs.Framing.Layouts
import MessageWire.Proofs.Command.Arguments
import MessageWire.Proofs.Command.Characters
import MessageWire.Proofs.Command.Files
import MessageWire.Proofs.Command.Hexadecimal
import MessageWire.Proofs.Command.Replay
import MessageWire.Proofs.Command.RoundTrip
import MessageWire.Proofs.Value.Members
import MessageWire.Proofs.Value.Uncounted
import MessageWire.Proofs.Catalog.Shortage
import MessageWire.Proofs.Value.Declared
import MessageWire.Proofs.Value.Growing
import MessageWire.Proofs.Value.Slots
import MessageWire.Proofs.Value.Capacity
import MessageWire.Proofs.Value.BlockCopy
import MessageWire.Proofs.Value.Conversion
import MessageWire.Proofs.Value.Converted
import MessageWire.Proofs.Value.ByteStrings
import MessageWire.Proofs.Value.Filling
import MessageWire.Proofs.Value.Ranges
import MessageWire.Proofs.Value.HeaderCode
