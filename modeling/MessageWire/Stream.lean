import MessageWire.Bytes
/-!
# Streams

A stream is data here: the bytes it still has (or has accepted) and a finite plan of how the next calls
answer. A call may move fewer bytes than asked, move none, fail, or have to be waited for; once the plan
is used up every call moves all it can. Any behaviour of a byte stream on finitely many bytes is such a
plan, so a statement about every plan is a statement about every stream.

The loops `Source.fill` and `Sink.writeAll` are the only ways the value formats touch a stream. Each
round of a loop uses up a step of the plan or moves a byte, which is why they end.
-/

namespace MessageWire

/-- Why a call on a stream failed. -/
inductive IoError where
  | interrupted
  | wouldBlock
  | brokenPipe
  | unexpectedEof
  /-- A write of a whole buffer found that the stream takes no more bytes. -/
  | writeZero
  deriving DecidableEq

def IoError.message : IoError → String
  | .interrupted => "operation interrupted"
  | .wouldBlock => "operation would block"
  | .brokenPipe => "broken pipe"
  | .unexpectedEof => "unexpected end of file"
  | .writeZero => "failed to write whole buffer"

/-- How one call on a stream answers. -/
inductive Step where
  /-- The call moves at most `n` bytes; for `n = 0` it moves none, which ends a read. -/
  | give (n : Nat)
  | fail (e : IoError)
  /-- The call is not ready: a blocking caller waits, a polling caller is told so. -/
  | pending
  deriving DecidableEq

/-! ### Reading -/

/-- A byte stream to read from. -/
structure Source where
  left : Bytes
  plan : List Step := []
  deriving DecidableEq

/-- What a single poll of a read finds. No bytes mean the end of the stream. -/
inductive Poll where
  | pending
  | failed (e : IoError)
  | ready (data : Bytes)
  deriving DecidableEq

namespace Source

/-- One poll of a read into `limit` bytes of room. -/
def poll (s : Source) (limit : Nat) : Poll × Source :=
  match s.plan with
  | [] => (.ready (s.left.take limit), ⟨s.left.drop limit, []⟩)
  | .give n :: plan => (.ready (s.left.take (min n limit)), ⟨s.left.drop (min n limit), plan⟩)
  | .fail e :: plan => (.failed e, ⟨s.left, plan⟩)
  | .pending :: plan => (.pending, ⟨s.left, plan⟩)

/-- What `read` does on a source with the given bytes and plan. -/
def readPlanned (limit : Nat) (left : Bytes) : List Step → Except IoError Bytes × Source
  | [] => (.ok (left.take limit), ⟨left.drop limit, []⟩)
  | .give n :: plan => (.ok (left.take (min n limit)), ⟨left.drop (min n limit), plan⟩)
  | .fail e :: plan => (.error e, ⟨left, plan⟩)
  | .pending :: plan => readPlanned limit left plan

def read (s : Source) (limit : Nat) : Except IoError Bytes × Source :=
  readPlanned limit s.left s.plan

/-- What bounds the number of reads: every one uses up a step of the plan or takes a byte, except the
read that finds the end. -/
def budget (s : Source) : Nat := s.plan.length + s.left.length

theorem readPlanned_budget (limit : Nat) (left : Bytes) (plan : List Step) :
    (readPlanned limit left plan).1 = .ok [] ∨
      (readPlanned limit left plan).2.budget < plan.length + left.length := by
  induction plan with
  | nil =>
    cases left with
    | nil => exact .inl (by simp [readPlanned])
    | cons b bs =>
      cases limit with
      | zero => exact .inl (by simp [readPlanned])
      | succ limit =>
        refine .inr ?_
        simp only [readPlanned, budget, List.length_nil, List.length_drop, List.length_cons]
        omega
  | cons step plan ih =>
    cases step with
    | give n =>
      refine .inr ?_
      simp only [readPlanned, budget, List.length_drop, List.length_cons]
      omega
    | fail e =>
      refine .inr ?_
      simp only [readPlanned, budget, List.length_cons]
      omega
    | pending =>
      rcases ih with h | h
      · exact .inl h
      · refine .inr ?_
        simp only [readPlanned, List.length_cons]
        omega

theorem read_budget (s : Source) (limit : Nat) :
    (s.read limit).1 = .ok [] ∨ (s.read limit).2.budget < s.budget :=
  readPlanned_budget limit s.left s.plan

/-- A read takes a front part of what is left, no longer than the room for it. -/
theorem read_ok_left {s s' : Source} {limit : Nat} {data : Bytes} (h : s.read limit = (.ok data, s')) :
    data ++ s'.left = s.left ∧ data.length ≤ limit := by
  unfold read at h
  generalize s.left = left at h ⊢
  generalize s.plan = plan at h
  induction plan with
  | nil =>
    cases h
    exact ⟨List.take_append_drop _ _, List.length_take_le _ _⟩
  | cons step plan ih =>
    cases step with
    | give n =>
      cases h
      refine ⟨List.take_append_drop _ _, ?_⟩
      rw [List.length_take]
      omega
    | fail e => simp [readPlanned] at h
    | pending => exact ih h

theorem read_error_left {s s' : Source} {limit : Nat} {e : IoError} (h : s.read limit = (.error e, s')) :
    s'.left = s.left := by
  unfold read at h
  generalize s.left = left at h ⊢
  generalize s.plan = plan at h
  induction plan with
  | nil => simp [readPlanned] at h
  | cons step plan ih =>
    cases step with
    | give n => simp [readPlanned] at h
    | fail e =>
      cases h
      rfl
    | pending => exact ih h

/-- A poll uses up a step of the plan or takes a byte, unless it finds the end. -/
theorem poll_budget (s : Source) (limit : Nat) :
    (s.poll limit).1 = .ready [] ∨ (s.poll limit).2.budget < s.budget := by
  obtain ⟨left, plan⟩ := s
  match plan, left, limit with
  | [], [], _ => exact .inl (by simp [poll])
  | [], _ :: _, 0 => exact .inl (by simp [poll])
  | [], b :: bs, limit + 1 =>
    refine .inr ?_
    simp only [poll, budget, List.length_nil, List.length_drop, List.length_cons]
    omega
  | .give n :: plan, left, limit =>
    refine .inr ?_
    simp only [poll, budget, List.length_drop, List.length_cons]
    omega
  | .fail e :: plan, left, limit =>
    refine .inr ?_
    simp only [poll, budget, List.length_cons]
    omega
  | .pending :: plan, left, limit =>
    refine .inr ?_
    simp only [poll, budget, List.length_cons]
    omega

end Source

/-- What a run of reads collected: the bytes in order, the error that stopped it if one did, and the
source afterwards. -/
structure Collected where
  bytes : Bytes
  error? : Option IoError
  source : Source

/-- Reads until `want` bytes are there or the stream ends. Interrupted reads are repeated, any other
error stops at once, and no read is made once nothing is wanted. -/
def Source.fill (s : Source) (want : Nat) : Collected :=
  if _hwant : want = 0 then ⟨[], none, s⟩
  else
    match _hread : s.read want with
    | (.error .interrupted, s') => s'.fill want
    | (.error e, s') => ⟨[], some e, s'⟩
    | (.ok [], s') => ⟨[], none, s'⟩
    | (.ok (b :: bs), s') =>
      let rest := s'.fill (want - (bs.length + 1))
      ⟨b :: bs ++ rest.bytes, rest.error?, rest.source⟩
termination_by s.budget
decreasing_by
  all_goals
    have hbudget := s.read_budget want
    rw [_hread] at hbudget
    simpa using hbudget

/-- What was collected and what is left are the bytes that the source had, and no more was collected
than was wanted. -/
theorem Source.fill_left (s : Source) (want : Nat) :
    (s.fill want).bytes ++ (s.fill want).source.left = s.left ∧ (s.fill want).bytes.length ≤ want := by
  fun_induction Source.fill s want with
  | case1 s => simp
  | case2 s want hwant s' hread ih =>
    have hleft := read_error_left hread
    rw [hleft] at ih
    exact ih
  | case3 s want hwant e s' he hread =>
    have hleft := read_error_left hread
    simp [hleft]
  | case4 s want hwant s' hread =>
    obtain ⟨hleft, _⟩ := read_ok_left hread
    simpa using hleft
  | case5 s want hwant b bs s' hread rest ih =>
    obtain ⟨hleft, hlen⟩ := read_ok_left hread
    obtain ⟨ihleft, ihlen⟩ := ih
    refine ⟨?_, ?_⟩
    · show b :: bs ++ rest.bytes ++ rest.source.left = s.left
      rw [List.append_assoc, ihleft, hleft]
    · have hrest : rest.bytes.length ≤ want - (bs.length + 1) := ihlen
      simp only [List.cons_append, List.length_cons, List.length_append] at hlen ⊢
      omega

/-! ### Writing -/

/-- A byte stream to write to, with what it has accepted so far. Flushing has a plan of its own, in
which only errors count. -/
structure Sink where
  accepted : Array UInt8 := #[]
  plan : List Step := []
  flushPlan : List Step := []
  flushes : Nat := 0

namespace Sink

def bytes (s : Sink) : Bytes := s.accepted.toList

def accept (s : Sink) (data : Bytes) (plan : List Step) : Sink :=
  { s with accepted := s.accepted.appendList data, plan := plan }

@[simp] theorem bytes_accept (s : Sink) (data : Bytes) (plan : List Step) :
    (s.accept data plan).bytes = s.bytes ++ data := by
  simp [accept, bytes]

def writePlanned (s : Sink) (data : Bytes) : List Step → Except IoError Nat × Sink
  | [] => (.ok data.length, s.accept data [])
  | .give n :: plan => (.ok (min n data.length), s.accept (data.take n) plan)
  | .fail e :: plan => (.error e, { s with plan := plan })
  | .pending :: plan => writePlanned s data plan

/-- One write call: how many bytes of `data` were accepted. -/
def write (s : Sink) (data : Bytes) : Except IoError Nat × Sink :=
  s.writePlanned data s.plan

theorem writePlanned_plan (s : Sink) (data : Bytes) (plan : List Step) {e : IoError}
    (h : (s.writePlanned data plan).1 = .error e) :
    (s.writePlanned data plan).2.plan.length < plan.length := by
  induction plan with
  | nil => simp [writePlanned] at h
  | cons step plan ih =>
    cases step with
    | give n => simp [writePlanned] at h
    | fail e => simp [writePlanned]
    | pending =>
      have hrest := ih h
      simp only [writePlanned, List.length_cons]
      omega

theorem write_plan (s : Sink) (data : Bytes) {e : IoError} (h : (s.write data).1 = .error e) :
    (s.write data).2.plan.length < s.plan.length :=
  s.writePlanned_plan data s.plan h

/-- Writes all of `data`. Interrupted writes are repeated, any other error stops at once, and so does
a write that accepts nothing. -/
def writeAll (s : Sink) (data : Bytes) : Except IoError Unit × Sink :=
  match data with
  | [] => (.ok (), s)
  | b :: bs =>
    match _hwrite : s.write (b :: bs) with
    | (.error .interrupted, s') => s'.writeAll (b :: bs)
    | (.error e, s') => (.error e, s')
    | (.ok 0, s') => (.error .writeZero, s')
    | (.ok (n + 1), s') => s'.writeAll (bs.drop n)
termination_by (data.length, s.plan.length)
decreasing_by
  · have hplan := s.write_plan (b :: bs) (by rw [_hwrite])
    rw [_hwrite] at hplan
    exact Prod.Lex.right _ hplan
  · refine Prod.Lex.left _ _ ?_
    simp only [List.length_drop, List.length_cons]
    omega

/-- A write call accepts a front part of `data`, the one that it answers the length of. -/
theorem write_ok {s s' : Sink} {data : Bytes} {n : Nat} (h : s.write data = (.ok n, s')) :
    s'.bytes = s.bytes ++ data.take n := by
  unfold write at h
  generalize s.plan = plan at h
  induction plan with
  | nil =>
    cases h
    simp
  | cons step plan ih =>
    cases step with
    | give k =>
      cases h
      rw [bytes_accept, List.take_eq_take_min]
    | fail e => simp [writePlanned] at h
    | pending => exact ih h

theorem write_error {s s' : Sink} {data : Bytes} {e : IoError} (h : s.write data = (.error e, s')) :
    s'.bytes = s.bytes := by
  unfold write at h
  generalize s.plan = plan at h
  induction plan with
  | nil => simp [writePlanned] at h
  | cons step plan ih =>
    cases step with
    | give k => simp [writePlanned] at h
    | fail e =>
      cases h
      rfl
    | pending => exact ih h

def flush (s : Sink) : Except IoError Unit × Sink :=
  match s.flushPlan with
  | .fail e :: plan => (.error e, { s with flushPlan := plan })
  | _ :: plan => (.ok (), { s with flushPlan := plan, flushes := s.flushes + 1 })
  | [] => (.ok (), { s with flushes := s.flushes + 1 })

end Sink

end MessageWire
