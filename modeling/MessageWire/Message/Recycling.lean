import MessageWire.Message.Assembler
/-!
# Buffers that are used again

An unfinished message is put together in a buffer. The buffer of a message that is given up becomes the spare one, in
which the next message is put together, unless it has grown above the threshold of the settings or is no longer than
the one that is spare already. It is emptied, but its memory keeps what was put there.

`Recycler` is an assembler with these buffers. What shows of it is an `Assembler` (`Recycler.shown`), which has no need
of them.
-/

namespace MessageWire

/-! ### Buffers -/

/-- How much memory a buffer gets when it has too little: at least as much as is needed. -/
structure Growth where
  appending : (capacity needed : Nat) → Nat
  reserving : (capacity needed : Nat) → Nat
  le_appending : ∀ capacity needed, needed ≤ appending capacity needed
  le_reserving : ∀ capacity needed, needed ≤ reserving capacity needed

/-- Memory, of which the front is in use. -/
structure Buffer where
  memory : Bytes
  length : Nat
  length_le : length ≤ memory.length

namespace Buffer

def empty : Buffer := ⟨[], 0, Nat.le_refl 0⟩

def capacity (b : Buffer) : Nat := b.memory.length

def bytes (b : Buffer) : Bytes := b.memory.take b.length

@[simp] theorem length_bytes (b : Buffer) : b.bytes.length = b.length := by
  rw [bytes, List.length_take, Nat.min_eq_left b.length_le]

/-- The buffer with no bytes in use. What lies in its memory stays there. -/
def clear (b : Buffer) : Buffer := ⟨b.memory, 0, Nat.zero_le _⟩

/-- The buffer with room for `needed` bytes in all. If it has too little, the bytes in use go to `grown` other ones. -/
def reserve (b : Buffer) (grown needed : Nat) : Buffer :=
  if needed ≤ b.capacity then b
  else
    { memory := b.bytes ++ List.replicate (grown - b.length) 0
      length := b.length
      length_le := by
        rw [List.length_append, length_bytes]
        exact Nat.le_add_right _ _ }

@[simp] theorem length_reserve (b : Buffer) (grown needed : Nat) : (b.reserve grown needed).length = b.length := by
  unfold reserve
  split
  · rfl
  · rfl

theorem le_capacity_reserve (b : Buffer) {grown needed : Nat} (h : needed ≤ grown) :
    needed ≤ (b.reserve grown needed).capacity := by
  unfold reserve
  split
  case isTrue hroom => exact hroom
  case isFalse =>
    rw [capacity, List.length_append, length_bytes, List.length_replicate]
    omega

def append (g : Growth) (b : Buffer) (data : Bytes) : Buffer :=
  let needed := b.length + data.length
  let room := b.reserve (g.appending b.capacity needed) needed
  { memory := overwrite room.memory b.length data
    length := needed
    length_le := by
      have hroom : needed ≤ room.memory.length := b.le_capacity_reserve (g.le_appending _ _)
      rw [length_overwrite hroom]
      exact hroom }

end Buffer

/-! ### Taking in bytes -/

/-- An unfinished message, in the buffer that it is put together in. -/
inductive Held where
  | idle
  | header (buffer : Buffer)
  | body (envelope : Envelope) (buffer : Buffer) (total : Nat)

namespace Held

def buffer? : Held → Option Buffer
  | idle => none
  | header buffer => some buffer
  | body _ buffer _ => some buffer

def pending : Held → Pending
  | idle => .idle
  | header buffer => .header buffer.bytes.toArray
  | body envelope buffer total => .body envelope buffer.bytes.toArray total

end Held

/-- What became of the front of a receive, and of the spare buffer. -/
structure AdvanceIn where
  consumed : Nat
  held : Held
  spare : Buffer
  events : List Event

namespace AdvanceIn

def keepHeader (buffer spare : Buffer) (consumed : Nat) : AdvanceIn :=
  ⟨consumed, .header buffer, spare, [.progress ⟨none, buffer.length, 0⟩]⟩

def after (n : Nat) (a : AdvanceIn) : AdvanceIn := { a with consumed := n + a.consumed }

end AdvanceIn

namespace Intake

/-- `Intake.begin`. What does not come whole goes into the spare buffer. -/
def beginIn (g : Growth) (i : Intake) (spare : Buffer) (fresh : Bool) (window : Bytes) :
    Except MessageError AdvanceIn :=
  let stashed : AdvanceIn := .keepHeader (spare.clear.append g window) .empty window.length
  match i.framing.measure window with
  | .error e => .error e
  | .ok none =>
    if fresh && !i.allowPartial then .error (.tooShort window.length i.framing.layout.minimum) else .ok stashed
  | .ok (some (sizes, total)) =>
    let overhead := sizes.overhead.toNat
    if !reaches overhead window then .ok stashed
    else
      let envelope := i.framing.envelope sizes window i.remote
      if reaches total window then
        .ok ⟨total, .idle, spare, completed envelope total ((window.take total).drop overhead) false⟩
      else
        let buffer := (spare.clear.reserve (g.reserving spare.capacity total) total).append g window
        .ok ⟨window.length, .body envelope buffer total, .empty,
          [.progress ⟨some envelope, buffer.length, total⟩]⟩

/-- `Intake.extendBody`. The buffer of a message that is complete goes to whoever gets the message. -/
def extendBodyIn (g : Growth) (spare : Buffer) (envelope : Envelope) (buffer : Buffer) (total : Nat)
    (window : Bytes) : Except MessageError AdvanceIn :=
  if total < buffer.length then .error .overfull
  else
    let more := window.take (total - buffer.length)
    let buffer := buffer.append g more
    if buffer.length < total then
      .ok ⟨more.length, .body envelope buffer total, spare, [.progress ⟨some envelope, buffer.length, total⟩]⟩
    else
      .ok ⟨more.length, .idle, spare,
        completed envelope total (buffer.bytes.drop envelope.sizes.overhead.toNat) true⟩

/-- `Intake.extendHeader`. The body goes into the buffer of the envelope. -/
def extendHeaderIn (g : Growth) (i : Intake) (spare buffer : Buffer) (window : Bytes) : Except MessageError AdvanceIn :=
  let minimum := i.framing.layout.minimum
  let first := window.take (minimum - buffer.length)
  let buffer := buffer.append g first
  let window := window.drop first.length
  match i.framing.measure buffer.bytes with
  | .error e => .error e
  | .ok none =>
    if buffer.length < minimum then .ok (.keepHeader buffer spare first.length)
    else .error (.tooShort buffer.length minimum)
  | .ok (some (sizes, total)) =>
    let overhead := sizes.overhead.toNat
    let more := window.take (overhead - buffer.length)
    let buffer := buffer.append g more
    let taken := first.length + more.length
    if buffer.length < overhead then .ok (.keepHeader buffer spare taken)
    else
      let envelope := i.framing.envelope sizes buffer.bytes i.remote
      let buffer := buffer.reserve (g.reserving buffer.capacity total) total
      (extendBodyIn g spare envelope buffer total (window.drop more.length)).map (AdvanceIn.after taken)

def stepIn (g : Growth) (i : Intake) (held : Held) (spare : Buffer) (fresh : Bool) (window : Bytes) :
    Except MessageError AdvanceIn :=
  match held with
  | .idle => i.beginIn g spare fresh window
  | .header buffer => i.extendHeaderIn g spare buffer window
  | .body envelope buffer total => extendBodyIn g spare envelope buffer total window

/-- What became of a whole receive, and of the spare buffer. -/
structure RunIn where
  result : Except MessageError Unit
  held : Held
  spare : Buffer
  events : List Event

/-- `Intake.runFrom`. A message that is refused takes its buffer with it. -/
def runFromIn (g : Growth) (i : Intake) (held : Held) (spare : Buffer) (fresh : Bool) (window : Bytes) : RunIn :=
  match window with
  | [] => ⟨.ok (), held, spare, []⟩
  | b :: bs =>
    match i.stepIn g held spare fresh (b :: bs) with
    | .error e => ⟨.error e, .idle, spare, []⟩
    | .ok ⟨0, _, spare', events⟩ => ⟨.error .stalled, .idle, spare', events⟩
    | .ok ⟨n + 1, held', spare', events⟩ =>
      let later := i.runFromIn g held' spare' false (bs.drop n)
      { later with events := events ++ later.events }
termination_by window.length
decreasing_by
  simp only [List.length_drop, List.length_cons]
  omega

def runIn (g : Growth) (i : Intake) (held : Held) (spare : Buffer) (window : Bytes) : RunIn :=
  match held, window with
  | .idle, [] => ⟨.error (.tooShort 0 i.framing.layout.minimum), .idle, spare, []⟩
  | _, _ => i.runFromIn g held spare true window

end Intake

/-! ### Assemblers with buffers -/

structure Recycler where
  layout : Layout
  remote : String
  settings : AssemblerSettings
  storage : Storage
  held : Held := .idle
  spare : Buffer := .empty
  observed : Bool := false

/-- What a recycler makes of an operation. -/
structure Recycled where
  result : Except MessageError Unit
  events : List Event
  recycler : Recycler

namespace Recycler

def ofSettings (layout : Layout) (remote : String) (settings : AssemblerSettings) : Recycler :=
  { layout, remote, settings, storage := .ready { capacity := max settings.scratchCapacity 1 } }

def shown (r : Recycler) : Assembler :=
  { layout := r.layout, remote := r.remote, settings := r.settings, storage := r.storage, pending := r.held.pending,
    observed := r.observed }

def recycle (r : Recycler) (buffer : Buffer) : Buffer :=
  if r.settings.largeBufferThreshold < buffer.capacity then r.spare
  else if r.spare.capacity < buffer.capacity then buffer.clear
  else r.spare

def load (r : Recycler) (offset : Nat) (data : Bytes) : Except MessageError Recycler :=
  r.shown.scratch.map fun scratch => { r with storage := .ready (scratch.put offset data) }

/-- The recycler after a run. A fatal error costs it all buffers. -/
def afterRun (r : Recycler) (run : Intake.RunIn) : Recycler :=
  match run.result with
  | .error e =>
    if e.isFatal then { r with held := .idle, spare := .empty, storage := .poisoned }
    else { r with held := .idle, spare := run.spare }
  | .ok () => { r with held := run.held, spare := run.spare }

def processAt (g : Growth) (r : Recycler) (offset received : Nat) : Recycled :=
  match r.shown.scratch with
  | .error e => ⟨.error e, [], r⟩
  | .ok scratch =>
    if offset + received > scratch.capacity then
      ⟨.error (.scratchOverrun offset received scratch.capacity), [], r⟩
    else
      let run := r.shown.intake.runIn g r.held r.spare (scratch.window offset received)
      let events := if run.result.isOk then run.events else run.events ++ [.progress .cleared]
      ⟨run.result, r.shown.heard events, r.afterRun run⟩

def receive (g : Growth) (r : Recycler) (data : Bytes) : Recycled :=
  match r.load 0 data with
  | .error e => ⟨.error e, [], r⟩
  | .ok r' => r'.processAt g 0 data.length

def receiveAll (g : Growth) (r : Recycler) : List Bytes → Recycled
  | [] => ⟨.ok (), [], r⟩
  | data :: rest =>
    let now := r.receive g data
    match now.result with
    | .error _ => now
    | .ok () =>
      let later := now.recycler.receiveAll g rest
      { later with events := now.events ++ later.events }

def feed (g : Growth) (r : Recycler) (data : Bytes) : Recycled :=
  match r.shown.scratch with
  | .error e => ⟨.error e, [], r⟩
  | .ok scratch => r.receiveAll g (Assembler.receives scratch.capacity data)

/-- Drops the message that is pending, and keeps its buffer if there is use for it. -/
def reset (r : Recycler) : Recycled :=
  match r.held.buffer? with
  | none => ⟨.ok (), [], r⟩
  | some buffer =>
    ⟨.ok (), r.shown.heard [.progress .cleared], { r with held := .idle, spare := r.recycle buffer }⟩

def dispose (r : Recycler) : Recycler :=
  match r.storage with
  | .disposed => r
  | _ => { r with storage := .disposed, held := .idle, spare := .empty, observed := false }

def observe (r : Recycler) (observed : Bool) : Recycler := { r with observed := observed }

def setMaxMessageSize (r : Recycler) (max : Nat) : Recycler :=
  { r with settings := { r.settings with maxMessageSize := max } }

end Recycler

end MessageWire
