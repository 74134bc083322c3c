import MessageWire.Message.Assembler
/-!
# Receivers

A receiver reads messages from a byte stream. Each read of the stream is one receive of its assembler;
messages that come in the same read wait in a queue, and an error is held back until the messages in
front of it have been handed out.

There is a form that waits for the stream (`Receiver.next`) and one that is told when the stream is not
ready (`Receiver.poll`). All that a receiver knows is in its state, so a poll that found nothing may be
given up and begun anew.
-/

namespace MessageWire

structure Receiver where
  source : Source
  assembler : Assembler
  catalog : Catalog
  /-- Messages that have come but have not been handed out. -/
  ready : List Message := []
  deferred? : Option MessageError := none

namespace Receiver

/-- What a receiver answers without a read: a message, the error behind it, or a refusal. Otherwise, how many bytes to
read. -/
def prepare (r : Receiver) : Except (Except MessageError Message × Receiver) Nat :=
  match r.ready, r.deferred? with
  | m :: rest, _ => .error (.ok m, { r with ready := rest })
  | [], some e => .error (.error e, { r with deferred? := none })
  | [], none =>
    match r.assembler.scratch with
    | .error e => .error (.error e, r)
    | .ok scratch => .ok scratch.capacity

/-- The receiver after a read that took `data`, which leaves the stream as `source`. -/
def take (r : Receiver) (data : Bytes) (source : Source) : Receiver :=
  let reaction := r.assembler.receive data
  { r with
    source
    assembler := reaction.assembler
    ready := r.ready ++ reaction.deliveries.map (·.message)
    deferred? := match reaction.result with | .ok () => none | .error e => some e }

/-- What the end of the stream means: the end between two messages, or the loss of an unfinished one. -/
def finish (r : Receiver) : MessageError × Receiver :=
  let pending := r.assembler.pending
  if pending.length = 0 then (.closed, r)
  else
    (.incomplete pending.length (pending.total?.getD 0), { r with assembler := r.assembler.reset.assembler })

@[simp] theorem source_take (r : Receiver) (data : Bytes) (source : Source) :
    (r.take data source).source = source := rfl

/-- The next message, waiting for the stream where it is not ready. -/
def next (r : Receiver) : Except MessageError Message × Receiver :=
  match r.prepare with
  | .error answer => answer
  | .ok capacity =>
    match _hread : r.source.read capacity with
    | (.error .interrupted, source) => next { r with source }
    | (.error e, source) => (.error (.io e), { r with source })
    | (.ok [], source) =>
      let (e, r') := finish { r with source }
      (.error e, r')
    | (.ok (b :: bs), source) => next (r.take (b :: bs) source)
termination_by r.source.budget
decreasing_by
  all_goals
    have hbudget := r.source.read_budget capacity
    rw [_hread] at hbudget
    simpa using hbudget

inductive Polled where
  /-- The stream is not ready, and the poll is to be repeated later. -/
  | pending
  | ready (result : Except MessageError Message)

/-- The next message, if it can be had without waiting. -/
def poll (r : Receiver) : Polled × Receiver :=
  match r.prepare with
  | .error (result, r') => (.ready result, r')
  | .ok capacity =>
    match _hpoll : r.source.poll capacity with
    | (.pending, source) => (.pending, { r with source })
    | (.failed .interrupted, source) => poll { r with source }
    | (.failed e, source) => (.ready (.error (.io e)), { r with source })
    | (.ready [], source) =>
      let (e, r') := finish { r with source }
      (.ready (.error e), r')
    | (.ready (b :: bs), source) => poll (r.take (b :: bs) source)
termination_by r.source.budget
decreasing_by
  all_goals
    have hbudget := r.source.poll_budget capacity
    rw [_hpoll] at hbudget
    simpa using hbudget

/-- The value in the payload of a message that was handed out. -/
def decode (r : Receiver) (t : Ty) (m : Message) : Except MessageError t.Value × Receiver :=
  let (result, catalog) := m.value r.catalog t
  (result, { r with catalog })

def nextValue (r : Receiver) (t : Ty) : Except MessageError t.Value × Receiver :=
  match r.next with
  | (.error e, r') => (.error e, r')
  | (.ok m, r') => r'.decode t m

/-- The receiver with another ceiling on the size of messages that have not started yet. -/
def setMaxMessageSize (r : Receiver) (max : Nat) : Receiver :=
  { r with assembler := r.assembler.setMaxMessageSize max }

end Receiver

end MessageWire
