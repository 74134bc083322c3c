import MessageWire.Command.Run
/-!
# The program

Answers the requests of a session with the machine that the program runs on.
-/

namespace MessageWire

/-- A failure of the machine as a failed use of a file. -/
def FileError.ofError (e : IO.Error) : FileError :=
  match e with
  | .noFileOrDirectory _ code details => ⟨.missing, s!"{details} (os error {code})"⟩
  | .permissionDenied _ code details => ⟨.forbidden, s!"{details} (os error {code})"⟩
  | .inappropriateType _ code details => ⟨.other, s!"{details} (os error {code})"⟩
  | .resourceExhausted _ code details => ⟨.other, s!"{details} (os error {code})"⟩
  | .invalidArgument _ code details => ⟨.other, s!"{details} (os error {code})"⟩
  | e => ⟨.other, toString e⟩

/-- What a shell reports of a program that was broken off. -/
def exitAborted : Nat := 134

partial def readAll (stream : IO.FS.Stream) (got : Array UInt8) : IO Bytes := do
  let data ← stream.read 65536
  if data.isEmpty then return got.toList
  readAll stream (got ++ data.data)

def answerRead : Place → IO Bytes
  | .standard => do readAll (← IO.getStdin) #[]
  | .file path => do readAll (.ofHandle (← IO.FS.Handle.mk path .read)) #[]

/-- The answer to a request to write, with the file that was created open. -/
def answerWrite (created? : Option IO.FS.Handle) (place : Place) (data : Bytes) : IO Unit := do
  let stream ←
    match place, created? with
    | .file _, some handle => pure (IO.FS.Stream.ofHandle handle)
    | _, _ => IO.getStdout
  stream.write data.toByteArray
  stream.flush

def Session.perform (created? : Option IO.FS.Handle) : Session → IO UInt32
  | .exit ending => do
    if let some error := ending.error? then IO.eprintln s!"error: {error}"
    return .ofNat (ending.code?.getD exitAborted)
  | .allocate size next => do
    discard <| IO.mkRef (ByteArray.emptyWithCapacity size)
    next.perform created?
  | .read place next => do
    let answer ←
      try pure (Except.ok (← answerRead place))
      catch e => pure (Except.error (FileError.ofError e))
    (next answer).perform created?
  | .create path next => do
    let answer ←
      try pure (Except.ok (← IO.FS.Handle.mk path .write))
      catch e => pure (Except.error (FileError.ofError e))
    match answer with
    | .ok handle => (next none).perform (some handle)
    | .error e => (next (some e)).perform created?
  | .write place data next => do
    let answer ←
      try
        answerWrite created? place data
        pure none
      catch e => pure (some (FileError.ofError e))
    (next answer).perform created?

end MessageWire

def main (args : List String) : IO UInt32 := do
  let terminal ← (← IO.getStdout).isTty
  (MessageWire.Session.ofArguments args (if terminal then .table else .json)).perform none
