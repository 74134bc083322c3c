import MessageWire.Message.Basic
/-!
# The assembler

An assembler takes in the bytes of a stream receive by receive and gives out whole messages. A receive
may hold part of a message, exactly one, or several. Between receives the assembler keeps the bytes of at
most one unfinished message (`Pending`); a message that comes whole is delivered from the receive itself,
and one that came in pieces from the bytes that were kept.

The bytes of a receive lie in a scratch buffer of fixed capacity. A message that is refused is forgotten,
and the assembler goes on with the next receive; only a fatal error poisons it for good. Observers are
told of progress; what they are told and what is delivered forms one list of events, in order.

`Intake.step` takes in the front of a receive, `Intake.run` a whole one, and `Assembler.processAt` adds
the scratch buffer and the rules for failures.
-/

namespace MessageWire

/-! ### Events -/

/-- How far the message at hand has come. No envelope and no bytes mean that what was pending has been
dropped. -/
structure Progress where
  envelope? : Option Envelope
  received : Nat
  expected : Nat
  deriving DecidableEq

namespace Progress

def cleared : Progress := ⟨none, 0, 0⟩

def isCleared (p : Progress) : Bool := p.envelope?.isNone && p.received == 0 && p.expected == 0

end Progress

/-- A message given out. Its payload is owned if it was put together in a buffer of its own, so that
it may be kept without a copy. -/
structure Delivery where
  message : Message
  owned : Bool
  deriving DecidableEq

/-- What taking in bytes makes known. -/
inductive Event where
  | progress (p : Progress)
  | delivery (d : Delivery)
  deriving DecidableEq

namespace Event

def isDelivery : Event → Bool
  | progress _ => false
  | delivery _ => true

def delivery? : Event → Option Delivery
  | progress _ => none
  | delivery d => some d

def progress? : Event → Option Progress
  | progress p => some p
  | delivery _ => none

end Event

/-! ### Taking in bytes -/

/-- The unfinished message that is kept between receives. -/
inductive Pending where
  | idle
  | header (received : Array UInt8)
  /-- The envelope has come, and `total` is the size of the whole message. -/
  | body (envelope : Envelope) (received : Array UInt8) (total : Nat)
  deriving DecidableEq

namespace Pending

def bytes : Pending → Bytes
  | idle => []
  | header received => received.toList
  | body _ received _ => received.toList

def length : Pending → Nat
  | idle => 0
  | header received => received.size
  | body _ received _ => received.size

def total? : Pending → Option Nat
  | body _ _ total => some total
  | _ => none

end Pending

/-- The rules for taking in bytes. -/
structure Intake where
  framing : Framing
  remote : String
  /-- Whether a receive that starts a message may be shorter than the shortest envelope. -/
  allowPartial : Bool

/-- What became of the front of a receive. -/
structure Advance where
  consumed : Nat
  pending : Pending
  events : List Event

namespace Intake

def keepHeader (received : Array UInt8) (consumed : Nat) : Advance :=
  ⟨consumed, .header received, [.progress ⟨none, received.size, 0⟩]⟩

def completed (envelope : Envelope) (total : Nat) (payload : Bytes) (owned : Bool) : List Event :=
  [.progress ⟨some envelope, total, total⟩, .delivery ⟨⟨envelope, payload⟩, owned⟩]

def begin (i : Intake) (fresh : Bool) (window : Bytes) : Except MessageError Advance :=
  match i.framing.measure window with
  | .error e => .error e
  | .ok none =>
    if fresh && !i.allowPartial then .error (.tooShort window.length i.framing.layout.minimum)
    else .ok (keepHeader window.toArray window.length)
  | .ok (some (sizes, total)) =>
    let overhead := sizes.overhead.toNat
    if !reaches overhead window then .ok (keepHeader window.toArray window.length)
    else
      let envelope := i.framing.envelope sizes window i.remote
      if reaches total window then
        .ok ⟨total, .idle, completed envelope total ((window.take total).drop overhead) false⟩
      else
        let received := window.toArray
        .ok ⟨received.size, .body envelope received total, [.progress ⟨some envelope, received.size, total⟩]⟩

def extendBody (envelope : Envelope) (received : Array UInt8) (total : Nat) (window : Bytes) :
    Except MessageError Advance :=
  if total < received.size then .error .overfull
  else
    let more := window.take (total - received.size)
    let received := received.appendList more
    if received.size < total then
      .ok ⟨more.length, .body envelope received total, [.progress ⟨some envelope, received.size, total⟩]⟩
    else
      .ok ⟨more.length, .idle,
        completed envelope total (received.toList.drop envelope.sizes.overhead.toNat) true⟩

def Advance.after (n : Nat) (a : Advance) : Advance := { a with consumed := n + a.consumed }

/-- Finishes an envelope with the front of `window`, and goes on with the body. -/
def extendHeader (i : Intake) (received : Array UInt8) (window : Bytes) : Except MessageError Advance :=
  let minimum := i.framing.layout.minimum
  let first := window.take (minimum - received.size)
  let received := received.appendList first
  let window := window.drop first.length
  match i.framing.measure received.toList with
  | .error e => .error e
  | .ok none =>
    if received.size < minimum then .ok (keepHeader received first.length)
    else .error (.tooShort received.size minimum)
  | .ok (some (sizes, total)) =>
    let overhead := sizes.overhead.toNat
    let more := window.take (overhead - received.size)
    let received := received.appendList more
    let taken := first.length + more.length
    if received.size < overhead then .ok (keepHeader received taken)
    else
      let envelope := i.framing.envelope sizes received.toList i.remote
      (extendBody envelope received total (window.drop more.length)).map (Advance.after taken)

def step (i : Intake) (pending : Pending) (fresh : Bool) (window : Bytes) : Except MessageError Advance :=
  match pending with
  | .idle => i.begin fresh window
  | .header received => i.extendHeader received window
  | .body envelope received total => extendBody envelope received total window

/-- What became of a whole receive. If it failed, nothing is pending. -/
structure Run where
  result : Except MessageError Unit
  pending : Pending
  events : List Event

/-- Takes in all of `window`, step by step. A step that takes in nothing would be repeated without
end. -/
def runFrom (i : Intake) (pending : Pending) (fresh : Bool) (window : Bytes) : Run :=
  match window with
  | [] => ⟨.ok (), pending, []⟩
  | b :: bs =>
    match i.step pending fresh (b :: bs) with
    | .error e => ⟨.error e, .idle, []⟩
    | .ok ⟨0, _, events⟩ => ⟨.error .stalled, .idle, events⟩
    | .ok ⟨n + 1, pending', events⟩ =>
      let later := i.runFrom pending' false (bs.drop n)
      { later with events := events ++ later.events }
termination_by window.length
decreasing_by
  simp only [List.length_drop, List.length_cons]
  omega

/-- Takes in a receive. One without bytes is an error if it should start a message. -/
def run (i : Intake) (pending : Pending) (window : Bytes) : Run :=
  match pending, window with
  | .idle, [] => ⟨.error (.tooShort 0 i.framing.layout.minimum), .idle, []⟩
  | _, _ => i.runFrom pending true window

end Intake

/-! ### The scratch buffer -/

/-- The buffer that receives lie in. All its bytes behind those in `written` are zero. -/
structure Scratch where
  capacity : Nat
  written : Bytes := []

namespace Scratch

/-- The scratch buffer with as much of `data` as fits put at `offset`. -/
def put (s : Scratch) (offset : Nat) (data : Bytes) : Scratch :=
  match data.take (s.capacity - offset) with
  | [] => s
  | data =>
    let before := s.written.take offset
    { s with
      written := before ++ List.replicate (offset - before.length) 0 ++ data ++
        s.written.drop (offset + data.length) }

def window (s : Scratch) (offset count : Nat) : Bytes :=
  let known := (s.written.drop offset).take count
  known ++ List.replicate (count - known.length) 0

end Scratch

/-! ### Assemblers -/

structure AssemblerSettings where
  maxMessageSize : Nat := 134217728
  /-- Buffers of unfinished messages above this size are given back rather than kept for the next. -/
  largeBufferThreshold : Nat := 16384
  /-- Whether a receive that starts a message may be shorter than the shortest envelope. -/
  allowPartial : Bool := true
  /-- The capacity of the scratch buffer, which is at least one. -/
  scratchCapacity : Nat := 65536
  deriving DecidableEq

/-- The scratch buffer of an assembler, or why it has none. -/
inductive Storage where
  | ready (scratch : Scratch)
  | poisoned
  | disposed

/-- Where an assembler stands between receives. -/
inductive ReceiveState where
  | idle
  | awaitingHeader
  | awaitingBody
  | disposed
  | poisoned
  deriving DecidableEq

/-- An assembler of messages from one peer. -/
structure Assembler where
  layout : Layout
  remote : String
  settings : AssemblerSettings
  storage : Storage
  pending : Pending := .idle
  observed : Bool := false

/-- What an assembler makes of an operation. -/
structure Reaction where
  result : Except MessageError Unit
  events : List Event
  assembler : Assembler

def Reaction.deliveries (r : Reaction) : List Delivery := r.events.filterMap (·.delivery?)

namespace Assembler

def ofSettings (layout : Layout) (remote : String) (settings : AssemblerSettings) : Assembler :=
  { layout, remote, settings, storage := .ready { capacity := max settings.scratchCapacity 1 } }

def framing (a : Assembler) : Framing := ⟨a.layout, a.settings.maxMessageSize⟩

def intake (a : Assembler) : Intake := ⟨a.framing, a.remote, a.settings.allowPartial⟩

def state (a : Assembler) : ReceiveState :=
  match a.storage, a.pending with
  | .disposed, _ => .disposed
  | .poisoned, _ => .poisoned
  | .ready _, .idle => .idle
  | .ready _, .header _ => .awaitingHeader
  | .ready _, .body _ _ _ => .awaitingBody

def scratch (a : Assembler) : Except MessageError Scratch :=
  match a.storage with
  | .ready scratch => .ok scratch
  | .poisoned => .error .poisoned
  | .disposed => .error .disposed

/-- The assembler with as much of `data` as fits put into the scratch buffer at `offset`. -/
def load (a : Assembler) (offset : Nat) (data : Bytes) : Except MessageError Assembler :=
  a.scratch.map fun scratch => { a with storage := .ready (scratch.put offset data) }

def heard (a : Assembler) (events : List Event) : List Event :=
  events.filter fun e => a.observed || e.isDelivery

/-- The assembler after a run. A fatal error costs it the scratch buffer. -/
def afterRun (a : Assembler) (run : Intake.Run) : Assembler :=
  match run.result with
  | .error e => if e.isFatal then { a with pending := .idle, storage := .poisoned } else { a with pending := .idle }
  | .ok () => { a with pending := run.pending }

/-- Takes in `received` bytes that lie in the scratch buffer at `offset`. A failure of that drops what is pending, and
observers are told. -/
def processAt (a : Assembler) (offset received : Nat) : Reaction :=
  match a.scratch with
  | .error e => ⟨.error e, [], a⟩
  | .ok scratch =>
    if offset + received > scratch.capacity then
      ⟨.error (.scratchOverrun offset received scratch.capacity), [], a⟩
    else
      let run := a.intake.run a.pending (scratch.window offset received)
      let events := if run.result.isOk then run.events else run.events ++ [.progress .cleared]
      ⟨run.result, a.heard events, a.afterRun run⟩

/-- Takes in `data` as one receive at the start of the scratch buffer. -/
def receive (a : Assembler) (data : Bytes) : Reaction :=
  match a.load 0 data with
  | .error e => ⟨.error e, [], a⟩
  | .ok a' => a'.processAt 0 data.length

def receiveAll (a : Assembler) : List Bytes → Reaction
  | [] => ⟨.ok (), [], a⟩
  | data :: rest =>
    let now := a.receive data
    match now.result with
    | .error _ => now
    | .ok () =>
      let later := now.assembler.receiveAll rest
      { later with events := now.events ++ later.events }

/-- The receives that `data` makes if every one fills the scratch buffer as far as it can. -/
def receives (capacity : Nat) (data : Bytes) : List Bytes :=
  if data.length ≤ capacity then [data]
  else
    let whole := blocks capacity data
    let rest := data.drop (data.length / capacity * capacity)
    if rest.isEmpty then whole else whole ++ [rest]

def feed (a : Assembler) (data : Bytes) : Reaction :=
  match a.scratch with
  | .error e => ⟨.error e, [], a⟩
  | .ok scratch => a.receiveAll (receives scratch.capacity data)

/-! ### Other operations -/

def reset (a : Assembler) : Reaction :=
  match a.pending with
  | .idle => ⟨.ok (), [], a⟩
  | _ => ⟨.ok (), a.heard [.progress .cleared], { a with pending := .idle }⟩

def dispose (a : Assembler) : Assembler :=
  match a.storage with
  | .disposed => a
  | _ => { a with storage := .disposed, pending := .idle, observed := false }

def observe (a : Assembler) (observed : Bool) : Assembler := { a with observed := observed }

/-- The assembler with another ceiling, for messages whose envelope has not come yet. -/
def setMaxMessageSize (a : Assembler) (max : Nat) : Assembler :=
  { a with settings := { a.settings with maxMessageSize := max } }

end Assembler

end MessageWire
