import MessageWire.Message.Error
/-!
# Envelopes

Every message starts with an envelope, which tells the size of the payload behind it, carries a check of
that size, and may hold routing bytes. Where these lie is up to a `Layout`; nothing else here knows. A
`Framing` is a layout with a ceiling on message sizes, and `Framing.measure` decides whether the front of
a byte string may start a message, and how long that message is.

The standard layout is `Layout.standard`.
-/

namespace MessageWire

/-- The sizes in an envelope: those of the payload and of the envelope itself, and the check of the
former. -/
structure Sizes where
  payload : UInt32
  check : UInt32
  overhead : UInt32
  deriving DecidableEq

def Sizes.total (s : Sizes) : Nat := s.overhead.toNat + s.payload.toNat

structure Layout where
  /-- The bytes without which `sizes?` has no answer. -/
  minimum : Nat
  /-- The sizes told by the front of a message. -/
  sizes? : Bytes → Option Sizes
  /-- The check that belongs to a payload size. -/
  check : UInt32 → UInt32
  /-- The routing bytes inside a whole envelope. -/
  routing : Bytes → Bytes
  /-- The envelope for a payload of the given size. -/
  encode : UInt32 → Bytes → Except MessageError Bytes

namespace Layout

/-- The size of the whole envelope, as told by the front of a message. -/
def overhead? (l : Layout) (window : Bytes) : Option UInt32 := (l.sizes? window).map (·.overhead)

/-! ### The standard layout -/

/-- The fixed part of a standard envelope: four bytes each for the payload size and the check, and two
for the length of the routing. -/
def standardMinimum : Nat := 10

def maxRouting : Nat := 65535

/-- The check of a payload size in a standard envelope. -/
def standardCheck (payload : UInt32) : UInt32 := payload ^^^ 0xA5A5A5A5

def standardSizes? (window : Bytes) : Option Sizes :=
  if reaches standardMinimum window then
    some
      { payload := .ofNat (ofLittleEndian (window.take 4))
        check := .ofNat (ofLittleEndian ((window.drop 4).take 4))
        overhead := .ofNat (standardMinimum + ofLittleEndian ((window.drop 8).take 2)) }
  else none

/-- A standard envelope: payload size, check and routing length, least significant bytes first, then
the routing. -/
def standardEncode (payload : UInt32) (routing : Bytes) : Except MessageError Bytes :=
  if routing.length > maxRouting then .error (.routingTooLarge routing.length maxRouting)
  else
    .ok (littleEndian 4 payload.toNat ++ littleEndian 4 (standardCheck payload).toNat ++
      littleEndian 2 routing.length ++ routing)

def standard : Layout where
  minimum := standardMinimum
  sizes? := standardSizes?
  check := standardCheck
  routing envelope := envelope.drop standardMinimum
  encode := standardEncode

end Layout

/-! ### Framings -/

/-- A layout with a ceiling on the size of whole messages. -/
structure Framing where
  layout : Layout
  ceiling : Nat

/-- Reads and checks the sizes at the front of `window`: the sizes and the size of the whole message,
or `none` if they have not all come yet. -/
def Framing.measure (f : Framing) (window : Bytes) : Except MessageError (Option (Sizes × Nat)) :=
  match f.layout.sizes? window with
  | none => .ok none
  | some sizes =>
    let expected := f.layout.check sizes.payload
    if sizes.check ≠ expected then .error (.checkMismatch sizes.payload sizes.check expected)
    else if sizes.total ≥ 0x100000000 then .error (.overflow sizes.payload sizes.overhead)
    else if sizes.total > f.ceiling then .error (.oversized sizes.total f.ceiling)
    else .ok (some (sizes, sizes.total))

/-- An envelope whose sizes have been checked, and the peer that it came from. -/
structure Envelope where
  sizes : Sizes
  routing : Bytes
  remote : String
  deriving DecidableEq

def Envelope.total (e : Envelope) : Nat := e.sizes.total

/-- The envelope at the front of `window`, which holds all of it. -/
def Framing.envelope (f : Framing) (sizes : Sizes) (window : Bytes) (remote : String) : Envelope :=
  ⟨sizes, f.layout.routing (window.take sizes.overhead.toNat), remote⟩

/-- Reads and checks the envelope at the front of `window`, or finds that it has not come whole. -/
def Framing.readEnvelope (f : Framing) (window : Bytes) (remote : String) :
    Except MessageError (Option Envelope) :=
  match f.measure window with
  | .error e => .error e
  | .ok none => .ok none
  | .ok (some (sizes, _)) =>
    if reaches sizes.overhead.toNat window then .ok (some (f.envelope sizes window remote)) else .ok none

end MessageWire
