import MessageWire.Message.Assembler
/-!
# Descriptions of assemblers

One-line descriptions for logs and inspection. They tell where an assembler stands and how it is set, and
nothing of the bytes it holds.
-/

namespace MessageWire

open Text (record openRecord quoted)

def ReceiveState.description : ReceiveState → String
  | .idle => "Idle"
  | .awaitingHeader => "AwaitingHeader"
  | .awaitingBody => "AwaitingBody"
  | .disposed => "Disposed"
  | .poisoned => "Poisoned"

/-- The settings of an assembler, with the scratch capacity that was asked for. -/
def AssemblerSettings.description (s : AssemblerSettings) : String :=
  record "BufferConfig"
    [("max_message_size", toString s.maxMessageSize),
      ("large_buffer_threshold", toString s.largeBufferThreshold),
      ("allow_partial_header", toString s.allowPartial),
      ("scratch_capacity", toString s.scratchCapacity)]

def Assembler.description (a : Assembler) : String :=
  openRecord "ContiguousBuffer"
    [("remote", s!"PeerId({quoted a.remote})"), ("state", a.state.description),
      ("pending_len", toString a.pending.length), ("config", a.settings.description)]

end MessageWire
