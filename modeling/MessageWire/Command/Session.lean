import MessageWire.Command.Machine
/-!
# Sessions

A session is a command at work: it reads files, creates files, writes bytes, and ends with an exit code.
Every request waits for the answer of the machine, so a session is a tree, and it is the same tree
whether a real machine answers or a `Machine`, which is as much of one as a session can notice.
-/

namespace MessageWire

/-- How a session ends: its exit code, which there is none of if the machine breaks the program off, and
the error it reports. -/
structure Ending where
  code? : Option Nat
  error? : Option String
  deriving DecidableEq

/-- What a command does, given the answers of the machine. -/
inductive Session where
  | exit (ending : Ending)
  /-- Makes a buffer of so many bytes. Without room for it the machine breaks the program off. -/
  | allocate (size : Nat) (next : Session)
  | read (place : Place) (next : Except FileError Bytes → Session)
  /-- Creates an empty file, in place of any file of that name. -/
  | create (path : String) (next : Option FileError → Session)
  | write (place : Place) (data : Bytes) (next : Option FileError → Session)

def Session.run : Session → Machine → Ending × Machine
  | .exit ending, m => (ending, m)
  | .allocate size next, m => if size ≤ m.memory then next.run m else (⟨none, none⟩, m)
  | .read place next, m => (next (m.read place)).run m
  | .create path next, m =>
    let (error?, m') := m.create path
    (next error?).run m'
  | .write place data next, m =>
    let (error?, m') := m.write place data
    (next error?).run m'

end MessageWire
