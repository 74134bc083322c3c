import MessageWire.Value.Error
/-!
# Staged transfers

Element bytes go to and come from streams through a staging buffer. Short transfers use a buffer of a
shared pool, longer ones a buffer of their own, and those above a limit go through in chunks of whole
elements. No buffer can be longer than `maxCapacity`: a transfer that asks for one ends the process before
it has moved a byte (`ValueError.capacityOverflow`).

Buffers of the pool are as long as the threshold of the pool. Those that it starts with are made before any
transfer (`StagingLimits.fillsPool`), so a pool without room for its threshold is one that starts empty. Which
buffer of the pool a transfer gets makes no difference, and the pool is not kept here.

A transfer is a run over consecutive spans, `runSpans`; `Outlet.stage` produces the bytes of each span
and writes them, `Inlet.stage` reads the bytes of each span and hands them on.
-/

namespace MessageWire

/-- The limits that choose how a transfer is staged. -/
structure StagingLimits where
  /-- Transfers below this many bytes use a buffer of the pool. -/
  poolThreshold : Nat := 1024
  maxBufferSize : Nat := 1048576
  poolCapacity : Nat := 32
  deriving DecidableEq

inductive StagingTier where
  | pooled
  | oneShot
  | chunked
  deriving DecidableEq

namespace StagingLimits

def tier (limits : StagingLimits) (total : Nat) : StagingTier :=
  if total < limits.poolThreshold then .pooled
  else if total ≤ limits.maxBufferSize then .oneShot
  else .chunked

/-- The length of the staging buffer for `total` bytes of elements of `unit` bytes: everything at
once, or the most whole elements that the limit allows and at least one. -/
def chunkLength (limits : StagingLimits) (total unit : Nat) : Nat :=
  match limits.tier total with
  | .pooled => total
  | .oneShot => total
  | .chunked =>
    let unit := max unit 1
    min (max (limits.maxBufferSize - limits.maxBufferSize % unit) unit) total

/-- The length of the buffer that is made for a transfer. One for the pool has room for any other that uses it. -/
def bufferLength (limits : StagingLimits) (total unit : Nat) : Nat :=
  match limits.tier total with
  | .pooled => limits.poolThreshold
  | _ => limits.chunkLength total unit

/-- Whether there can be the buffer that a transfer needs, if it needs one. -/
def Allocates (limits : StagingLimits) (total unit : Nat) : Prop :=
  total = 0 ∨ limits.bufferLength total unit ≤ maxCapacity

instance (limits : StagingLimits) (total unit : Nat) : Decidable (limits.Allocates total unit) :=
  inferInstanceAs (Decidable (_ ∨ _))

def Allocatable (limits : StagingLimits) : Prop := limits.poolThreshold ≤ maxCapacity

instance (limits : StagingLimits) : Decidable limits.Allocatable := inferInstanceAs (Decidable (_ ≤ _))

/-- Whether the pool can be made. Without buffers to start with it always can. -/
def fillsPool (limits : StagingLimits) : Bool := limits.poolCapacity == 0 || limits.Allocatable

theorem chunkLength_pos (limits : StagingLimits) {total : Nat} (unit : Nat) (h : total ≠ 0) :
    0 < limits.chunkLength total unit := by
  unfold chunkLength
  split
  · omega
  · omega
  · simp only
    omega

end StagingLimits

/-! ### Spans -/

/-- A range of the bytes of a transfer. -/
structure Span where
  start : Nat
  stop : Nat
  deriving DecidableEq

def Span.length (s : Span) : Nat := s.stop - s.start

/-- Runs `act` over the spans of `chunk` bytes that cover `start` to `total` in order, the last one
cut off at `total`, until one fails. -/
def runSpans {σ : Type} (chunk : Nat) (hchunk : 0 < chunk) (total : Nat)
    (act : Span → σ → Except ValueError Unit × σ) (start : Nat) (s : σ) : Except ValueError Unit × σ :=
  if start < total then
    let stop := start + min chunk (total - start)
    match act ⟨start, stop⟩ s with
    | (.ok (), s') => runSpans chunk hchunk total act stop s'
    | (.error e, s') => (.error e, s')
  else (.ok (), s)
termination_by total - start

/-- Runs `act` over the spans that the limits cut a transfer into, and answers its length. -/
def StagingLimits.run {σ : Type} (limits : StagingLimits) (total unit : Nat)
    (act : Span → σ → Except ValueError Unit × σ) (s : σ) : Except ValueError Nat × σ :=
  if htotal : total = 0 then (.ok 0, s)
  else if limits.bufferLength total unit > maxCapacity then (.error .capacityOverflow, s)
  else
    match runSpans (limits.chunkLength total unit) (limits.chunkLength_pos unit htotal) total act 0 s with
    | (.ok (), s') => (.ok total, s')
    | (.error e, s') => (.error e, s')

/-! ### Staged writes -/

/-- A sink, and the limits of the staging that it is reached through. -/
structure Outlet where
  sink : Sink
  staging : StagingLimits

def Outlet.put (o : Outlet) (data : Bytes) : Except ValueError Nat × Outlet :=
  let (result, sink) := o.sink.put data
  (result, { o with sink := sink })

/-- Writes one span: `produce` makes its bytes, and nothing of it is written if that fails. -/
def Sink.putSpan {τ : Type} (produce : Span → τ → Except ValueError Bytes × τ) (span : Span)
    (s : Sink × τ) : Except ValueError Unit × (Sink × τ) :=
  match produce span s.2 with
  | (.error e, t) => (.error e, (s.1, t))
  | (.ok data, t) =>
    match s.1.writeAll data with
    | (.ok (), sink) => (.ok (), (sink, t))
    | (.error e, sink) => (.error (.io e), (sink, t))

/-- Writes `total` bytes of elements of `unit` bytes, span by span. -/
def Outlet.stage {τ : Type} (o : Outlet) (total unit : Nat)
    (produce : Span → τ → Except ValueError Bytes × τ) (t : τ) : Except ValueError Nat × Outlet × τ :=
  let (result, sink, t') := o.staging.run total unit (Sink.putSpan produce) (o.sink, t)
  (result, { o with sink := sink }, t')

/-! ### Staged reads -/

/-- A source, and the limits of the staging that it is reached through. -/
structure Inlet where
  source : Source
  staging : StagingLimits

/-- Reads one span and hands its bytes to `consume`. A source that ends inside it fails with all that
was taken since the transfer began. -/
def Source.takeSpan {τ : Type} (consume : Span → Bytes → τ → Except ValueError Unit × τ) (span : Span)
    (s : Source × τ) : Except ValueError Unit × (Source × τ) :=
  match s.1.takeExactly span.length with
  | (.error e, source) => (.error (e.after span.start), (source, s.2))
  | (.ok data, source) =>
    let (result, t) := consume span data s.2
    (result, (source, t))

/-- Reads `total` bytes of elements of `unit` bytes, span by span. -/
def Inlet.stage {τ : Type} (i : Inlet) (total unit : Nat)
    (consume : Span → Bytes → τ → Except ValueError Unit × τ) (t : τ) :
    Except ValueError Nat × Inlet × τ :=
  let (result, source, t') := i.staging.run total unit (Source.takeSpan consume) (i.source, t)
  (result, { i with source := source }, t')

end MessageWire
