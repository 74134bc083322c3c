import MessageWire.Bytes
/-!
# Machines

As much of a machine as a command can notice: its standard input and output, and its files, which are
reached by paths. A path is followed name by name, from the root or from the working directory, and every
name but the last has to lead to a directory.
-/

namespace MessageWire

/-! ### Failures -/

/-- Why a file could not be used, as far as exit codes tell. -/
inductive FileProblem where
  | missing
  | forbidden
  | other
  deriving DecidableEq

/-- A failed use of a file, with the text that the machine has for it. -/
structure FileError where
  problem : FileProblem
  text : String
  deriving DecidableEq

namespace FileError

def missing : FileError := ⟨.missing, "No such file or directory (os error 2)"⟩

/-- A path leads through a file that is no directory. -/
def notDirectory : FileError := ⟨.other, "Not a directory (os error 20)"⟩

def directory : FileError := ⟨.other, "Is a directory (os error 21)"⟩

def full : FileError := ⟨.other, "No space left on device (os error 28)"⟩

/-- A name, or a whole path, is longer than any can be. -/
def nameTooLong : FileError := ⟨.other, "File name too long (os error 36)"⟩

end FileError

/-! ### Files -/

/-- Where bytes are read from or written to. -/
inductive Place where
  /-- The standard input or output. -/
  | standard
  | file (path : String)
  deriving DecidableEq

/-- What is found at a location. -/
inductive FileNode where
  | file (contents : Array UInt8)
  | directory
  /-- A device that is empty and takes all bytes. -/
  | null
  /-- A device that is always full. -/
  | full
  /-- The standard input and output as a device. -/
  | standard
  deriving DecidableEq

/-- The names that lead from the root to a file. -/
abbrev Location := List String

/-- A machine as a session notices it: room for buffers, standard streams, files, and where relative paths begin. -/
structure Machine where
  memory : Nat
  input : Bytes := []
  output : Array UInt8 := #[]
  files : List (Location × FileNode) := []
  workingDirectory : Location := []

namespace Machine

def maxName : Nat := 255

def maxPath : Nat := 4095

def put (m : Machine) (l : Location) (node : FileNode) : Machine :=
  { m with files := (l, node) :: m.files.filter (·.1 ≠ l) }

/-- What is found at a location. There are directories wherever something lies beneath. -/
def node? (m : Machine) (l : Location) : Option FileNode :=
  match m.files.lookup l with
  | some node => some node
  | none =>
    if (m.workingDirectory :: m.files.map (·.1)).any l.isPrefixOf then some .directory else none

/-- A machine with standard input, files in its working directory, and the usual devices. -/
def ofFiles (memory : Nat) (input : Bytes) (files : List (String × Bytes)) : Machine :=
  let work : Location := ["tmp", "work"]
  let devices : List (Location × FileNode) :=
    [(["dev", "null"], .null), (["dev", "full"], .full), (["dev", "stdin"], .standard),
      (["dev", "stdout"], .standard), (["dev", "stderr"], .null)]
  let given := files.map fun (name, contents) => (work ++ name.splitOn "/", FileNode.file contents.toArray)
  { memory, input, files := given ++ devices, workingDirectory := work }

/-! ### Paths -/

/-- The location that a name leads to from another, which has to be a directory. -/
def enter (m : Machine) (l : Location) (name : String) : Except FileError Location :=
  match m.node? l with
  | none => .error .missing
  | some .directory =>
    if name = "" ∨ name = "." then .ok l
    else if name = ".." then .ok l.dropLast
    else if name.utf8ByteSize > maxName then .error .nameTooLong
    else .ok (l ++ [name])
  | some _ => .error .notDirectory

/-- The names of a path. A path that cannot be one is refused. -/
def names (path : String) : Except FileError (List String) :=
  if path = "" then .error .missing
  else if path.utf8ByteSize > maxPath then .error .nameTooLong
  else .ok (path.splitOn "/")

/-- The location that names lead to, in front of which an empty name stands for the root. -/
def follow (m : Machine) (names : List String) : Except FileError Location :=
  names.foldlM m.enter (if names.head? = some "" then [] else m.workingDirectory)

def locate (m : Machine) (path : String) : Except FileError Location := names path >>= m.follow

/-! ### Requests -/

def read (m : Machine) : Place → Except FileError Bytes
  | .standard => .ok m.input
  | .file path => do
    match m.node? (← m.locate path) with
    | none => .error .missing
    | some .directory => .error .directory
    | some .null => .ok []
    | some .full => .ok []
    | some .standard => .ok m.input
    | some (.file contents) => .ok contents.toList

/-- The location of a file that may be created. A path that ends in a slash or in dots can only be a directory. -/
def locateNew (m : Machine) (path : String) : Except FileError Location := do
  let given ← names path
  let body := (given.reverse.dropWhile (· = "")).reverse
  let last := body.getLastD ""
  let parent ← m.enter (← m.follow body.dropLast) ""
  if body.length < given.length ∨ last = "." ∨ last = ".." then .error .directory else m.enter parent last

def create (m : Machine) (path : String) : Option FileError × Machine :=
  match m.locateNew path with
  | .error e => (some e, m)
  | .ok l =>
    match m.node? l with
    | some .directory => (some .directory, m)
    | none | some (.file _) => (none, m.put l (.file #[]))
    | some _ => (none, m)

def write (m : Machine) (place : Place) (data : Bytes) : Option FileError × Machine :=
  match place with
  | .standard => (none, { m with output := m.output.appendList data })
  | .file path =>
    match m.locate path with
    | .error e => (some e, m)
    | .ok l =>
      match m.node? l with
      | none => (some .missing, m)
      | some .directory => (some .directory, m)
      | some .null => (none, m)
      | some .full => (if data.isEmpty then none else some .full, m)
      | some .standard => (none, { m with output := m.output.appendList data })
      | some (.file contents) => (none, m.put l (.file (contents.appendList data)))

end Machine

end MessageWire
