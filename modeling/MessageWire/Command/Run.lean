import MessageWire.Command.Hex
import MessageWire.Command.Listing
import MessageWire.Command.Session
import MessageWire.Message.Assembler
import MessageWire.Message.Sender
import MessageWire.Value.Description
/-!
# Commands

What the commands do, as sessions. `decode` replays a capture through an assembler and lists its
messages, `encode` writes messages, and `version` tells about the program. A command that fails says so
in one line and ends with an exit code that tells the kind of failure.
-/

namespace MessageWire

/-! ### Failures -/

def exitSuccess : Nat := 0

/-- A file is not there, or not open to the user. -/
def exitFailure : Nat := 1

def exitArguments : Nat := 2

def exitData : Nat := 60

def exitUsage : Nat := 64

def exitInternal : Nat := 125

def exitBroken : Nat := 101

/-- The exit code for a failed use of a file. -/
def FileError.exitCode (e : FileError) : Nat :=
  match e.problem with
  | .missing | .forbidden => exitFailure
  | .other => exitInternal

def IoError.exitCode : IoError → Nat
  | .unexpectedEof => exitData
  | _ => exitInternal

/-- The exit code for a message that could not be framed. -/
def MessageError.exitCode : MessageError → Nat
  | .io e => e.exitCode
  | .tooShort .. | .checkMismatch .. | .oversized .. | .overflow .. | .incomplete .. | .value _ => exitData
  | .routingTooLarge .. => exitUsage
  | .closed => exitFailure
  | _ => exitInternal

namespace Session

/-- The end of a command that did what it should. -/
def succeed : Session := .exit ⟨some exitSuccess, none⟩

def fail (code : Nat) (message : String) : Session := .exit ⟨some code, some message⟩

/-- The end of a command that breaks off without a word. -/
def breakOff (code : Nat) : Session := .exit ⟨some code, none⟩

/-- The end of a command that failed for a file. -/
def failFile (context : String) (e : FileError) : Session := fail e.exitCode s!"{context}: {e.text}"

/-- The end of a command that failed for a message. -/
def failMessage (context : String) (e : MessageError) : Session :=
  fail e.exitCode (context ++ ": " ++ match e with | .io io => io.message | _ => e.message)

/-! ### Decoding -/

def replayer (o : DecodeOptions) : Assembler :=
  .ofSettings .standard o.peer
    { maxMessageSize := o.maxMessageSize, allowPartial := !o.strict, scratchCapacity := o.chunkSize }

def listed (deliveries : List Delivery) : List Listed :=
  deliveries.mapIdx fun index d => ⟨index, d.message, d.owned⟩

/-- The end of a command after a replay: the capture has to hold whole messages only. -/
def afterReplay (replay : Reaction) : Session :=
  match replay.result with
  | .error e => failMessage "decode failed" e
  | .ok () =>
    if replay.assembler.state = .idle then succeed
    else fail exitData s!"capture ends mid-message ({replay.assembler.pending.length} bytes pending)"

/-- Lists the messages of a capture. Those in front of a fault are listed too. -/
def decode (o : DecodeOptions) (format : ListingFormat) : Session :=
  let place := if o.input = "-" then .standard else .file o.input
  .read place fun
    | .error e => failFile (if o.input = "-" then "read stdin failed" else s!"read {o.input} failed") e
    | .ok capture =>
      if o.chunkSize > maxCapacity then breakOff exitBroken
      else
        .allocate o.chunkSize <|
          let replay := (replayer o).feed capture
          .write .standard (Listed.bytes format (listed replay.deliveries)) fun _ => afterReplay replay

/-! ### Encoding -/

def withPayload (source? : Option PayloadSource) (next : Bytes → Session) : Session :=
  match source? with
  | none => fail exitUsage "one of --data, --hex, or --file is required"
  | some (.text s) => next (Utf8.encode s)
  | some (.hex digits) =>
    match Hex.decode digits with
    | .error f => fail exitUsage f.message
    | .ok payload => next payload
  | some (.file path) =>
    .read (.file path) fun
      | .error e => failFile s!"read {path} failed" e
      | .ok payload => next payload

def withOutput (path? : Option String) (next : Place → Session) : Session :=
  match path? with
  | none => next .standard
  | some path =>
    .create path fun
      | some e => failFile s!"create {path} failed" e
      | none => next (.file path)

def writeCopies (place : Place) (wire : Bytes) : Nat → Session
  | 0 => succeed
  | n + 1 =>
    .write place wire fun
      | some e => failFile "encode failed" e
      | none => writeCopies place wire n

/-- Writes messages. Nothing is created before the payload is known. -/
def encode (o : EncodeOptions) : Session :=
  withPayload o.payload? fun payload =>
    withOutput o.output? fun place =>
      match ({ sink := {} } : Sender).wire (Utf8.encode o.routing) payload with
      | .ok wire => writeCopies place wire o.copies
      | .error e => if o.copies = 0 then succeed else failMessage "encode failed" e

/-! ### Versions -/

def versionLine : String := "rpcwire 0.3.0"

/-- All that is known of how the program was built. -/
def extendedVersion : List String :=
  ["name: rpcwire", "version: 0.3.0", "target_os: linux", "target_arch: x86_64",
    "build_target: x86_64-unknown-linux-gnu", "git_hash: unknown", "features: async=true, cli=true",
    "host_byte_order: " ++ ByteOrder.little.description]

def print (texts : List String) : Session := .write .standard (Listed.linesOf texts) fun _ => succeed

/-! ### The command line -/

def ofCommand (command : Command) (format : ListingFormat) : Session :=
  match command with
  | .decode o => decode o format
  | .encode o => encode o
  | .version extended => print (if extended then extendedVersion else [versionLine])

/-- What arguments ask for, with the form of listing that holds if they name none. -/
def ofArguments (args : List String) (default : ListingFormat) : Session :=
  match Arguments.parse args with
  | .ok invocation => ofCommand invocation.command (invocation.format?.getD default)
  | .error .version => print [versionLine]
  | .error .help => succeed
  | .error .invalid => breakOff exitArguments

end Session

end MessageWire
