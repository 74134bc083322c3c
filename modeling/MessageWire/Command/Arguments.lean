import MessageWire.Value.Error
/-!
# Arguments

The arguments of the command line: options that hold for every command, then the name of a command, then
its own options and words. Options for every command may also follow the command's name, and one given
there counts more than one given before it.

An option's value is the next argument, unless that begins with a dash, or what follows an equals sign in
the option's own argument. No option may be given twice in one place, and `--` makes everything after it
a word.
-/

namespace MessageWire

/-! ### Commands -/

/-- The forms in which messages are listed. -/
inductive ListingFormat where
  | json
  | table
  | pretty
  | raw
  deriving DecidableEq

structure DecodeOptions where
  /-- The file to read, or a dash for the standard input. -/
  input : String
  chunkSize : Nat
  maxMessageSize : Nat
  peer : String
  /-- Whether a receive that starts a message has to have a whole envelope prefix. -/
  strict : Bool
  deriving DecidableEq

/-- Where the payload of an encoded message comes from. -/
inductive PayloadSource where
  | text (s : String)
  | hex (digits : String)
  | file (path : String)
  deriving DecidableEq

structure EncodeOptions where
  payload? : Option PayloadSource
  routing : String
  copies : Nat
  output? : Option String
  deriving DecidableEq

inductive Command where
  | decode (options : DecodeOptions)
  | encode (options : EncodeOptions)
  | version (extended : Bool)
  deriving DecidableEq

/-- A command, and the form of listing that was asked for. -/
structure Invocation where
  command : Command
  format? : Option ListingFormat
  deriving DecidableEq

/-- Why arguments ask for no command. -/
inductive Halt where
  | help
  | version
  | invalid
  deriving DecidableEq

namespace Arguments

/-! ### Values -/

/-- The number that an argument stands for, if a machine word holds it. A plus sign may stand in
front. -/
def number? (s : String) : Option Nat :=
  let digits := match s.toList with | '+' :: rest => rest | all => all
  if digits.isEmpty || !digits.all Char.isDigit then none
  else
    let n := digits.foldl (fun n c => 10 * n + (c.toNat - '0'.toNat)) 0
    if n ≤ maxWord then some n else none

def format? : String → Option ListingFormat
  | "json" => some .json
  | "table" => some .table
  | "pretty" => some .pretty
  | "raw" => some .raw
  | _ => none

/-! ### Grammars -/

/-- An option: its long name, its short one, and which values it takes, if it takes any. -/
structure OptionForm where
  long : String
  short? : Option Char := none
  accepts? : Option (String → Bool)

/-- What may stand in one part of the command line. -/
structure Grammar where
  options : List OptionForm
  commands : List String := []
  words : Nat := 0
  asksVersion : Bool := false

/-- What one part of the command line holds: its options by their long names, and its words. -/
structure Part where
  options : List (String × String) := []
  words : List String := []
  deriving DecidableEq

namespace Part

def value? (p : Part) (long : String) : Option String := p.options.lookup long

def has (p : Part) (long : String) : Bool := (p.value? long).isSome

def addOption (p : Part) (form : OptionForm) (value : String) : Except Halt Part :=
  let accepted := match form.accepts? with | some accepts => accepts value | none => value.isEmpty
  if accepted && !p.has form.long then .ok { p with options := p.options ++ [(form.long, value)] }
  else .error .invalid

/-- The part with a word more. No name of a file is empty. -/
def addWord (p : Part) (g : Grammar) (word : String) : Except Halt Part :=
  if p.words.length < g.words && !word.isEmpty then .ok { p with words := p.words ++ [word] }
  else .error .invalid

end Part

inductive Token where
  | words
  | long (name : String) (value? : Option String)
  | short (name : Char) (rest : List Char)
  | word (s : String)

def Token.ofArgument (arg : String) : Token :=
  match arg.toList with
  | ['-', '-'] => .words
  | '-' :: '-' :: rest =>
    let name := String.ofList (rest.takeWhile (· ≠ '='))
    match rest.dropWhile (· ≠ '=') with
    | _ :: value => .long name (some (String.ofList value))
    | [] => .long name none
  | '-' :: name :: rest => .short name rest
  | _ => .word arg

/-- Whether an argument may be the value of the option before it. -/
def isValue (arg : String) : Bool :=
  match Token.ofArgument arg with
  | .word _ => true
  | _ => false

def addWords (g : Grammar) (p : Part) : List String → Except Halt Part
  | [] => .ok p
  | word :: rest =>
    match p.addWord g word with
    | .error h => .error h
    | .ok p' => addWords g p' rest

/-- What an option asks for: its form, and the value in its own argument. -/
def Grammar.option? (g : Grammar) : Token → Except Halt (OptionForm × Option String)
  | .long name value? =>
    match g.options.find? (·.long == name), value? with
    | some form, _ => .ok (form, value?)
    | none, some _ => .error .invalid
    | none, none =>
      if name == "help" then .error .help
      else if name == "version" && g.asksVersion then .error .version
      else .error .invalid
  | .short name rest =>
    if name == 'h' then .error .help
    else if name == 'V' && g.asksVersion then .error .version
    else
      match g.options.find? (·.short? == some name) with
      | none => .error .invalid
      | some form =>
        match rest with
        | [] => .ok (form, none)
        | '=' :: value => .ok (form, some (String.ofList value))
        | value => .ok (form, some (String.ofList value))
  | _ => .error .invalid

/-- Reads one part of the command line. If the name of a command ended it, that name and the arguments
behind it are answered too. -/
def readPart (g : Grammar) (p : Part) (args : List String) :
    Except Halt (Part × Option (String × List String)) :=
  match args with
  | [] => .ok (p, none)
  | arg :: rest =>
    match Token.ofArgument arg with
    | .words => (addWords g p rest).map (·, none)
    | .word s =>
      if g.commands.contains s then .ok (p, some (s, rest))
      else
        match p.addWord g s with
        | .error h => .error h
        | .ok p' => readPart g p' rest
    | token =>
      match g.option? token with
      | .error h => .error h
      | .ok (form, attached?) =>
        match form.accepts?, attached? with
        | some _, none =>
          match rest with
          | value :: rest' =>
            if isValue value then
              match p.addOption form value with
              | .error h => .error h
              | .ok p' => readPart g p' rest'
            else .error .invalid
          | [] => .error .invalid
        | none, some _ => .error .invalid
        | _, _ =>
          match p.addOption form (attached?.getD "") with
          | .error h => .error h
          | .ok p' => readPart g p' rest
termination_by args.length

/-! ### The commands' grammars -/

def textOption (long : String) : OptionForm := { long, accepts? := some fun _ => true }

def choiceOption (long : String) (choices : List String) : OptionForm :=
  { long, accepts? := some fun s => choices.contains s }

/-- An option whose value is a number of at least `least`. -/
def numberOption (long : String) (least : Nat) : OptionForm :=
  { long, accepts? := some fun s => (number? s).any (least ≤ ·) }

/-- An option whose value is the name of a file. -/
def pathOption (long : String) (short? : Option Char) : OptionForm :=
  { long, short?, accepts? := some fun s => !s.isEmpty }

def switch (long : String) : OptionForm := { long, accepts? := none }

def sharedOptions : List OptionForm :=
  [choiceOption "format" ["json", "table", "pretty", "raw"], choiceOption "log-format" ["text", "json"],
    choiceOption "log-level" ["error", "warn", "info", "debug", "trace"]]

def commandNames : List String := ["decode", "encode", "version"]

def leading : Grammar :=
  { options := sharedOptions, commands := "help" :: commandNames, asksVersion := true }

def decodeGrammar : Grammar where
  options := sharedOptions ++
    [numberOption "chunk-size" 1, numberOption "max-message-size" 0, textOption "peer", switch "strict"]
  words := 1

def encodeGrammar : Grammar where
  options := sharedOptions ++
    [textOption "data", textOption "hex", pathOption "file" none, textOption "routing",
      numberOption "repeat" 0, pathOption "output" (some 'o')]

def versionGrammar : Grammar where
  options := sharedOptions ++ [switch "extended"]

def numberOr (p : Part) (long : String) (default : Nat) : Nat := ((p.value? long).bind number?).getD default

/-- What `decode` is asked to do. It has to be given a capture. -/
def decodeCommand (p : Part) : Except Halt Command :=
  match p.words with
  | input :: _ =>
    .ok (.decode
      { input
        chunkSize := numberOr p "chunk-size" 65536
        maxMessageSize := numberOr p "max-message-size" 134217728
        peer := (p.value? "peer").getD "capture"
        strict := p.has "strict" })
  | [] => .error .invalid

/-- What `encode` is asked to do. It may be given one payload only. -/
def encodeCommand (p : Part) : Except Halt Command :=
  let sources := [(p.value? "data").map .text, (p.value? "hex").map .hex, (p.value? "file").map .file].reduceOption
  if sources.length > 1 then .error .invalid
  else
    .ok (.encode
      { payload? := sources.head?
        routing := (p.value? "routing").getD ""
        copies := numberOr p "repeat" 1
        output? := p.value? "output" })

/-- The grammar behind the name of a command, and the command that it gives. -/
def commandOf (name : String) : Except Halt (Grammar × (Part → Except Halt Command)) :=
  match name with
  | "decode" => .ok (decodeGrammar, decodeCommand)
  | "encode" => .ok (encodeGrammar, encodeCommand)
  | "version" => .ok (versionGrammar, fun p => .ok (.version (p.has "extended")))
  | _ => .error .invalid

def helpOn : List String → Halt
  | [] => .help
  | [name] => if leading.commands.contains name then .help else .invalid
  | _ => .invalid

def parse (args : List String) : Except Halt Invocation := do
  let (before, command?) ← readPart leading {} args
  match command? with
  | none => .error .invalid
  | some (name, rest) =>
    if name == "help" then .error (helpOn rest)
    let (grammar, command) ← commandOf name
    let (part, _) ← readPart grammar {} rest
    let command ← command part
    let format? := ((part.value? "format").or (before.value? "format")).bind Arguments.format?
    return { command, format? }

end Arguments

end MessageWire
