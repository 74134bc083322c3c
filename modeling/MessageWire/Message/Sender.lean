import MessageWire.Message.Basic
/-!
# Senders

A sender writes messages to a byte stream. A message is written whole and then flushed; calls that the
stream interrupts or is not ready for are repeated. A message too large is not written at all, and after
any other failure a part of it may have been.
-/

namespace MessageWire

/-- Writes all of `data`, repeating calls that the stream was not ready for. A stream that takes no
more bytes is closed. -/
def Sink.push (s : Sink) (data : Bytes) : Except MessageError Unit × Sink :=
  match data with
  | [] => (.ok (), s)
  | b :: bs =>
    match _hwrite : s.write (b :: bs) with
    | (.error .interrupted, s') => s'.push (b :: bs)
    | (.error .wouldBlock, s') => s'.push (b :: bs)
    | (.error e, s') => (.error (.io e), s')
    | (.ok 0, s') => (.error .closed, s')
    | (.ok (n + 1), s') => s'.push (bs.drop n)
termination_by (data.length, s.plan.length)
decreasing_by
  · have hplan := s.write_plan (b :: bs) (by rw [_hwrite])
    rw [_hwrite] at hplan
    exact Prod.Lex.right _ hplan
  · have hplan := s.write_plan (b :: bs) (by rw [_hwrite])
    rw [_hwrite] at hplan
    exact Prod.Lex.right _ hplan
  · refine Prod.Lex.left _ _ ?_
    simp only [List.length_drop, List.length_cons]
    omega

/-- Flushes the stream under the given plan, repeating calls that it was not ready for. -/
def Sink.flushPlanned (s : Sink) : List Step → Except MessageError Unit × Sink
  | .fail .interrupted :: plan => s.flushPlanned plan
  | .fail .wouldBlock :: plan => s.flushPlanned plan
  | plan =>
    match Sink.flush { s with flushPlan := plan } with
    | (.ok (), s') => (.ok (), s')
    | (.error e, s') => (.error (.io e), s')

structure Sender where
  sink : Sink
  layout : Layout := .standard
  maxMessageSize : Nat := 134217728

namespace Sender

def flush (s : Sender) : Except MessageError Unit × Sender :=
  let (result, sink) := s.sink.flushPlanned s.sink.flushPlan
  (result, { s with sink })

/-- The bytes of a message, if it may be sent. -/
def wire (s : Sender) (routing payload : Bytes) : Except MessageError Bytes :=
  match s.layout.encodeMessage routing payload with
  | .error e => .error e
  | .ok wire =>
    if wire.length > s.maxMessageSize then .error (.oversized wire.length s.maxMessageSize) else .ok wire

def send (s : Sender) (routing payload : Bytes) : Except MessageError Unit × Sender :=
  match s.wire routing payload with
  | .error e => (.error e, s)
  | .ok wire =>
    match s.sink.push wire with
    | (.error e, sink) => (.error e, { s with sink })
    | (.ok (), sink) => flush { s with sink }

def sendMessage (s : Sender) (m : Message) : Except MessageError Unit × Sender :=
  s.send m.routing m.payload

/-- Sends a value as the payload, with the format that the catalog knows for its type. -/
def sendValue (s : Sender) (catalog : Catalog) (routing : Bytes) (t : Ty) (v : t.Value) :
    Except MessageError Unit × Sender × Catalog :=
  match catalog.toBytes t v with
  | (.error e, catalog') => (.error (.value e), s, catalog')
  | (.ok payload, catalog') =>
    let (result, s') := s.send routing payload
    (result, s', catalog')

end Sender

end MessageWire
