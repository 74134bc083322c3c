import Mathlib
import MessageWire.Proofs.Value.Streaming
/-!
# The ranges of a transfer

Staging cuts a transfer into ranges before it starts (`StagingLimits.cuts`). They lie one behind the other without gaps
(`Tiles`), and each begins between two elements, whether there are whole elements in all or not. A transfer goes through
a front part of them: it calls for the bytes of each range in turn, or hands them on, and goes on if the call and the
stream succeed (`Sink.Wrote`, `Source.Took`).

The calls are recorded by whoever answers them (`recordFills`, `recordDrains`), and a record changes nothing of the
transfer. So what a transfer did to its stream is told in terms of the calls that it made
(`StagingLimits.ranges_exact`).
-/

namespace MessageWire

variable {σ τ : Type}

/-! ### Ranges behind one another -/

/-- Ranges of which none is empty and each begins where the one before it ends, from `start` to `stop`. -/
inductive Tiles : (start : Nat) → List Span → (stop : Nat) → Prop
  | none (start : Nat) : Tiles start [] start
  | next {start mid stop : Nat} {spans : List Span} (more : start < mid) (later : Tiles mid spans stop) :
      Tiles start (⟨start, mid⟩ :: spans) stop

theorem Tiles.le {start stop : Nat} {spans : List Span} (h : Tiles start spans stop) : start ≤ stop := by
  induction h with
  | none start => exact Nat.le_refl start
  | next more _ ih => omega

theorem Tiles.front {start stop : Nat} {front spans : List Span} (h : Tiles start spans stop)
    (hfront : front <+: spans) : ∃ mid, mid ≤ stop ∧ Tiles start front mid := by
  induction h generalizing front with
  | none start =>
    obtain rfl := List.prefix_nil.mp hfront
    exact ⟨start, Nat.le_refl start, .none start⟩
  | @next start mid stop spans more later ih =>
    cases front with
    | nil => exact ⟨start, Nat.le_trans (Nat.le_of_lt more) later.le, .none start⟩
    | cons first front =>
      obtain ⟨rfl, hrest⟩ := List.cons_prefix_cons.mp hfront
      obtain ⟨reached, hle, htiles⟩ := ih hrest
      exact ⟨reached, hle, .next more htiles⟩

/-! ### Cutting -/

/-- The ranges of `chunk` bytes from `start` to `total`, of which the last one ends there. -/
def cuts (chunk : Nat) (hchunk : 0 < chunk) (total start : Nat) : List Span :=
  if start < total then
    let stop := start + min chunk (total - start)
    ⟨start, stop⟩ :: cuts chunk hchunk total stop
  else []
termination_by total - start

/-- Runs `act` over ranges in order until one fails. -/
def runEach (act : Span → σ → Except ValueError Unit × σ) : List Span → σ → Except ValueError Unit × σ
  | [], s => (.ok (), s)
  | span :: spans, s =>
    match act span s with
    | (.ok (), s') => runEach act spans s'
    | (.error e, s') => (.error e, s')

section Cuts

variable {chunk : Nat} (hchunk : 0 < chunk) (total : Nat)

theorem runSpans_eq (act : Span → σ → Except ValueError Unit × σ) (start : Nat) (s : σ) :
    runSpans chunk hchunk total act start s = runEach act (cuts chunk hchunk total start) s := by
  fun_induction runSpans chunk hchunk total act start s with
  | case1 start s hless stop s' hact ih =>
    rw [cuts, if_pos hless, runEach, ih]
    simp only [show act ⟨start, start + min chunk (total - start)⟩ s = _ from hact]
    rfl
  | case2 start s hless stop e s' hact =>
    rw [cuts, if_pos hless, runEach]
    simp only [show act ⟨start, start + min chunk (total - start)⟩ s = _ from hact]
  | case3 start s hend =>
    rw [cuts, if_neg hend, runEach]

theorem tiles_cuts {start : Nat} (hle : start ≤ total) : Tiles start (cuts chunk hchunk total start) total := by
  fun_induction cuts chunk hchunk total start with
  | case1 start hless stop ih => exact .next (by omega) (ih (by omega))
  | case2 start hend =>
    obtain rfl : start = total := by omega
    exact .none start

theorem length_of_mem_cuts {start : Nat} {span : Span} (h : span ∈ cuts chunk hchunk total start) :
    span.length ≤ chunk := by
  fun_induction cuts chunk hchunk total start with
  | case1 start hless stop ih =>
    rcases List.mem_cons.mp h with rfl | hlater
    · simp only [Span.length]
      omega
    · exact ih hlater
  | case2 start hend => cases h

/-- A chunk of whole elements, or of everything that is left, ends between two elements. -/
theorem aligned_cuts {unit start : Nat} (hcut : unit ∣ chunk ∨ total ≤ start + chunk) (hstart : unit ∣ start)
    {span : Span} (h : span ∈ cuts chunk hchunk total start) : unit ∣ span.start := by
  fun_induction cuts chunk hchunk total start with
  | case1 start hless stop ih =>
    rcases List.mem_cons.mp h with rfl | hlater
    · exact hstart
    · -- Behind the last range there is none, so that only the others have to end between two elements.
      by_cases hlast : total ≤ start + chunk
      · have hstop : stop = total := by omega
        rw [hstop, cuts, if_neg (Nat.lt_irrefl total)] at hlater
        cases hlater
      · have hstop : stop = start + chunk := by omega
        have hunit := hcut.resolve_right hlast
        exact ih (.inl hunit) (hstop ▸ Nat.dvd_add hstart hunit) hlater
  | case2 start hend => cases h

end Cuts

namespace StagingLimits

variable (limits : StagingLimits) (total : Nat) {unit : Nat}

/-- A chunk is no longer than a buffer may be, unless a single element is. -/
theorem chunkLength_le_of_chunked (hpos : 0 < unit) (h : limits.tier total = .chunked) :
    limits.chunkLength total unit ≤ max limits.maxBufferSize unit := by
  unfold chunkLength
  rw [h]
  simp only
  omega

/-- The ranges that the limits cut a transfer into. -/
def cuts (unit : Nat) : List Span :=
  if htotal : total = 0 then []
  else MessageWire.cuts (limits.chunkLength total unit) (limits.chunkLength_pos unit htotal) total 0

theorem run_eq {unit : Nat} (hroom : limits.Allocates total unit) (act : Span → σ → Except ValueError Unit × σ)
    (s : σ) :
    limits.run total unit act s =
      let run := runEach act (limits.cuts total unit) s
      (run.1.map fun _ => total, run.2) := by
  by_cases hzero : total = 0
  · subst hzero
    rfl
  · rw [run_of_allocates hzero hroom, cuts, dif_neg hzero, runSpans_eq]

/-- Ranges that are handed out one after the other, without overlaps or gaps, each between two elements and within the
staging buffer. -/
structure HandsOut (unit : Nat) (ranges : List Span) : Prop where
  tiles : ∃ reached, reached ≤ total ∧ Tiles 0 ranges reached
  aligned : ∀ range ∈ ranges, unit ∣ range.start
  fits : ∀ range ∈ ranges, range.length ≤ limits.chunkLength total unit

variable {limits total}

theorem tiles_cuts (unit : Nat) : Tiles 0 (limits.cuts total unit) total := by
  unfold cuts
  split
  case isTrue hzero =>
    subst hzero
    exact .none 0
  case isFalse => exact MessageWire.tiles_cuts _ total (Nat.zero_le total)

theorem exists_mem_cuts {unit : Nat} {range : Span} (h : range ∈ limits.cuts total unit) :
    ∃ hchunk, range ∈ MessageWire.cuts (limits.chunkLength total unit) hchunk total 0 := by
  unfold cuts at h
  split at h
  case isTrue => cases h
  case isFalse hzero => exact ⟨limits.chunkLength_pos unit hzero, h⟩

theorem handsOut_of_front (hpos : 0 < unit) {ranges : List Span} (hfront : ranges <+: limits.cuts total unit) :
    limits.HandsOut total unit ranges where
  tiles := (tiles_cuts unit).front hfront
  aligned range hrange := by
    obtain ⟨hchunk, hmem⟩ := exists_mem_cuts (hfront.subset hrange)
    refine aligned_cuts hchunk total ?_ (Nat.dvd_zero unit) hmem
    rw [Nat.zero_add]
    exact (limits.chunkLength_eq_or_dvd total hpos).symm.imp id fun heq => Nat.le_of_eq heq.symm
  fits range hrange := by
    obtain ⟨hchunk, hmem⟩ := exists_mem_cuts (hfront.subset hrange)
    exact length_of_mem_cuts hchunk total hmem

end StagingLimits

/-! ### Writes -/

/-- A call for the bytes of a range, and its answer. -/
structure FillCall where
  span : Span
  answer : Except ValueError Bytes
  deriving DecidableEq

/-- The bytes that calls have made, one behind the other. -/
def FillCall.bytes (calls : List FillCall) : Bytes := calls.flatMap fun call => call.answer.toOption.getD []

theorem FillCall.length_bytes_cons (span : Span) (data : Bytes) (calls : List FillCall) :
    (bytes (⟨span, .ok data⟩ :: calls)).length = data.length + (bytes calls).length := by
  rw [bytes, List.flatMap_cons, List.length_append]
  rfl

/-- A producer that makes as many bytes as a range has. What it makes is all that the staging buffer holds for the
range, whoever put it there. -/
def Fills (produce : Span → τ → Except ValueError Bytes × τ) : Prop :=
  ∀ span t data t', produce span t = (.ok data, t') → data.length = span.length

/-- The front of a staging buffer, with room for a range. Memory that was not used yet is zero. -/
def slice (buffer : Bytes) (span : Span) : Bytes := (buffer ++ List.replicate span.length 0).take span.length

/-- A producer that stores into the front of the staging buffer. Where it stores nothing, there is what an earlier range
has left. -/
def storing (fill : Span → Bytes → τ → Except ValueError Unit × Bytes × τ) (span : Span) (t : Bytes × τ) :
    Except ValueError Bytes × (Bytes × τ) :=
  let (answer, stored, t') := fill span (slice t.1 span) t.2
  (answer.map fun _ => stored, overwrite t.1 0 stored, t')

theorem fills_storing {fill : Span → Bytes → τ → Except ValueError Unit × Bytes × τ}
    (hfill : ∀ span front t, (fill span front t).2.1.length = front.length) : Fills (storing fill) := by
  intro span t data t' h
  have hlen : (fill span (slice t.1 span) t.2).2.1.length = span.length := by
    rw [hfill, slice, List.length_take, List.length_append, List.length_replicate]
    omega
  unfold storing at h
  generalize fill span (slice t.1 span) t.2 = got at hlen h
  obtain ⟨_ | _, stored, t''⟩ := got
  · cases h
  · cases h
    exact hlen

def recordFills (produce : Span → τ → Except ValueError Bytes × τ) (span : Span) (t : τ × List FillCall) :
    Except ValueError Bytes × (τ × List FillCall) :=
  let (answer, t') := produce span t.1
  (answer, t', t.2 ++ [⟨span, answer⟩])

namespace Sink

variable {produce : Span → τ → Except ValueError Bytes × τ} {s s' : Sink} {spans : List Span}
  {calls : List FillCall} {result : Except ValueError Unit} {start stop : Nat}

/-- A write of ranges, with the calls made for it: what each of them made was written, unless it failed. -/
inductive Wrote : List Span → Sink → List FillCall → Except ValueError Unit → Sink → Prop
  | all (s : Sink) : Wrote [] s [] (.ok ()) s
  | failed {span : Span} {spans : List Span} (s : Sink) (e : ValueError) :
      Wrote (span :: spans) s [⟨span, .error e⟩] (.error e) s
  | broken {span : Span} {spans : List Span} {s s' : Sink} {data : Bytes} {e : IoError}
      (length : data.length = span.length) (written : s.writeAll data = (.error e, s')) :
      Wrote (span :: spans) s [⟨span, .ok data⟩] (.error (.io e)) s'
  | next {span : Span} {spans : List Span} {s s' s'' : Sink} {data : Bytes} {calls : List FillCall}
      {result : Except ValueError Unit} (length : data.length = span.length)
      (written : s.writeAll data = (.ok (), s')) (later : Wrote spans s' calls result s'') :
      Wrote (span :: spans) s (⟨span, .ok data⟩ :: calls) result s''

/-- A write that keeps a record of its calls has the calls of such a write in it. -/
theorem wrote_runEach (hproduce : Fills produce) (spans : List Span) (s : Sink) (t : τ) (done : List FillCall) :
    let run := runEach (putSpan (recordFills produce)) spans (s, t, done)
    ∃ calls, run.2.2.2 = done ++ calls ∧ Wrote spans s calls run.1 run.2.1 := by
  induction spans generalizing s t done with
  | nil => exact ⟨[], (List.append_nil done).symm, .all s⟩
  | cons span spans ih =>
    cases hmade : produce span t with
    | mk answer t' =>
      cases answer with
      | error e =>
        simp only [runEach, putSpan, recordFills, hmade]
        exact ⟨_, rfl, .failed s e⟩
      | ok data =>
        have hlen := hproduce span t data t' hmade
        cases hwritten : s.writeAll data with
        | mk written s' =>
          cases written with
          | error e =>
            simp only [runEach, putSpan, recordFills, hmade, hwritten]
            exact ⟨_, rfl, .broken hlen hwritten⟩
          | ok _ =>
            simp only [runEach, putSpan, recordFills, hmade, hwritten]
            obtain ⟨calls, hcalls, hlater⟩ := ih s' t' (done ++ [⟨span, .ok data⟩])
            refine ⟨⟨span, .ok data⟩ :: calls, ?_, .next hlen hwritten hlater⟩
            rw [hcalls, List.append_assoc]
            rfl

theorem Wrote.front (h : Wrote spans s calls result s') : calls.map FillCall.span <+: spans := by
  induction h with
  | all s => exact List.prefix_rfl
  | failed s e => exact List.cons_prefix_cons.mpr ⟨rfl, List.nil_prefix⟩
  | broken _ _ => exact List.cons_prefix_cons.mpr ⟨rfl, List.nil_prefix⟩
  | next _ _ _ ih => exact List.cons_prefix_cons.mpr ⟨rfl, ih⟩

theorem bytes_of_writeAll {data : Bytes} (h : s.writeAll data = (.ok (), s')) : s'.bytes = s.bytes ++ data := by
  have htakes := s.takes_writeAll data
  rw [h] at htakes
  exact htakes.1

/-- A write that succeeds has made the bytes of all ranges, and the sink has them. -/
theorem Wrote.whole (h : Wrote spans s calls result s') (hok : result = .ok ()) (htiles : Tiles start spans stop) :
    calls.map FillCall.span = spans ∧ s'.bytes = s.bytes ++ FillCall.bytes calls
      ∧ start + (FillCall.bytes calls).length = stop := by
  induction h generalizing start with
  | all s =>
    cases htiles
    exact ⟨rfl, (List.append_nil _).symm, rfl⟩
  | failed s e => cases hok
  | broken _ _ => cases hok
  | @next span spans s s' s'' data calls result length written later ih =>
    cases htiles with
    | @next _ mid _ _ more htiles =>
      obtain ⟨hspans, hbytes, hlen⟩ := ih hok htiles
      have hdata : data.length = mid - start := length
      refine ⟨congrArg _ hspans, ?_, ?_⟩
      · rw [hbytes, bytes_of_writeAll written, List.append_assoc]
        rfl
      · rw [FillCall.length_bytes_cons, hdata]
        omega

/-- A call that fails is the last one, and the sink has what those before it have made. -/
theorem Wrote.of_failed (h : Wrote spans s calls result s') (htiles : Tiles start spans stop) {k : Nat} {span : Span}
    {e : ValueError} (hfailed : calls[k]? = some ⟨span, .error e⟩) :
    result = .error e ∧ calls.length = k + 1 ∧ s'.bytes = s.bytes ++ FillCall.bytes (calls.take k)
      ∧ start + (FillCall.bytes (calls.take k)).length = span.start := by
  induction h generalizing start k with
  | all s => cases hfailed
  | failed s e =>
    cases k with
    | zero =>
      cases hfailed
      cases htiles
      exact ⟨rfl, rfl, (List.append_nil _).symm, rfl⟩
    | succ k => cases hfailed
  | broken _ _ =>
    cases k with
    | zero => cases hfailed
    | succ k => cases hfailed
  | @next span spans s s' s'' data calls result length written later ih =>
    cases k with
    | zero => cases hfailed
    | succ k =>
      cases htiles with
      | @next _ mid _ _ more htiles =>
        obtain ⟨hresult, hlast, hbytes, hlen⟩ := ih htiles hfailed
        have hdata : data.length = mid - start := length
        refine ⟨hresult, congrArg Nat.succ hlast, ?_, ?_⟩
        · rw [hbytes, bytes_of_writeAll written, List.append_assoc]
          rfl
        · rw [List.take_succ_cons, FillCall.length_bytes_cons, hdata]
          omega

theorem Wrote.of_steady (h : Wrote spans s calls result s') (hs : s.Steady) :
    result = .ok () ∨ ∃ (k : Nat) (span : Span) (e : ValueError), calls[k]? = some ⟨span, .error e⟩ := by
  induction h with
  | all s => exact .inl rfl
  | failed s e => exact .inr ⟨0, _, e, rfl⟩
  | @broken span spans s s' data e _ written =>
    have htakes := s.takes_writeAll data
    rw [written] at htakes
    exact absurd hs htakes.2
  | @next span spans s s' s'' data calls result _ written _ ih =>
    have htakes := s.takes_writeAll data
    rw [written] at htakes
    exact (ih (htakes.2 hs)).imp id fun ⟨k, span, e, hk⟩ => ⟨k + 1, span, e, hk⟩

end Sink

/-! ### Reads -/

/-- A call that hands on the bytes of a range, and its answer. -/
structure DrainCall where
  span : Span
  data : Bytes
  answer : Except ValueError Unit
  deriving DecidableEq

/-- The bytes that calls have handed on, one behind the other. -/
def DrainCall.bytes (calls : List DrainCall) : Bytes := calls.flatMap DrainCall.data

theorem DrainCall.length_bytes_cons (call : DrainCall) (calls : List DrainCall) :
    (bytes (call :: calls)).length = call.data.length + (bytes calls).length := by
  rw [bytes, List.flatMap_cons, List.length_append]
  rfl

def recordDrains (consume : Span → Bytes → τ → Except ValueError Unit × τ) (span : Span) (data : Bytes)
    (t : τ × List DrainCall) : Except ValueError Unit × (τ × List DrainCall) :=
  let (answer, t') := consume span data t.1
  (answer, t', t.2 ++ [⟨span, data, answer⟩])

namespace Source

variable {s s' : Source} {spans : List Span} {calls : List DrainCall} {result : Except ValueError Unit}
  {start stop : Nat}

/-- A read of ranges, with the calls made for it. None was made for a range in which the source failed or ended. -/
inductive Took : List Span → Source → List DrainCall → Except ValueError Unit → Source → Prop
  | all (s : Source) : Took [] s [] (.ok ()) s
  | ended {span : Span} {spans : List Span} {s s' : Source} {e : ValueError}
      (taken : s.takeExactly span.length = (.error e, s')) : Took (span :: spans) s [] (.error (e.after span.start)) s'
  | failed {span : Span} {spans : List Span} {s s' : Source} {data : Bytes} (e : ValueError)
      (taken : s.takeExactly span.length = (.ok data, s')) :
      Took (span :: spans) s [⟨span, data, .error e⟩] (.error e) s'
  | next {span : Span} {spans : List Span} {s s' s'' : Source} {data : Bytes} {calls : List DrainCall}
      {result : Except ValueError Unit} (taken : s.takeExactly span.length = (.ok data, s'))
      (later : Took spans s' calls result s'') : Took (span :: spans) s (⟨span, data, .ok ()⟩ :: calls) result s''

/-- A read that keeps a record of its calls has the calls of such a read in it. -/
theorem took_runEach (consume : Span → Bytes → τ → Except ValueError Unit × τ) (spans : List Span)
    (s : Source) (t : τ) (done : List DrainCall) :
    let run := runEach (takeSpan (recordDrains consume)) spans (s, t, done)
    ∃ calls, run.2.2.2 = done ++ calls ∧ Took spans s calls run.1 run.2.1 := by
  induction spans generalizing s t done with
  | nil => exact ⟨[], (List.append_nil done).symm, .all s⟩
  | cons span spans ih =>
    cases htaken : s.takeExactly span.length with
    | mk taken s' =>
      cases taken with
      | error e =>
        simp only [runEach, takeSpan, htaken]
        exact ⟨[], (List.append_nil done).symm, .ended htaken⟩
      | ok data =>
        cases hdrained : consume span data t with
        | mk answer t' =>
          cases answer with
          | error e =>
            simp only [runEach, takeSpan, recordDrains, htaken, hdrained]
            exact ⟨_, rfl, .failed e htaken⟩
          | ok _ =>
            simp only [runEach, takeSpan, recordDrains, htaken, hdrained]
            obtain ⟨calls, hcalls, hlater⟩ := ih s' t' (done ++ [⟨span, data, .ok ()⟩])
            refine ⟨⟨span, data, .ok ()⟩ :: calls, ?_, .next htaken hlater⟩
            rw [hcalls, List.append_assoc]
            rfl

theorem Took.front (h : Took spans s calls result s') : calls.map DrainCall.span <+: spans := by
  induction h with
  | all s => exact List.prefix_rfl
  | ended _ => exact List.nil_prefix
  | failed _ _ => exact List.cons_prefix_cons.mpr ⟨rfl, List.nil_prefix⟩
  | next _ _ ih => exact List.cons_prefix_cons.mpr ⟨rfl, ih⟩

/-- A range that is taken from a source that has come to its start. -/
theorem left_of_range {left data : Bytes} {mid : Nat} (hleft : s.left = left.drop start) (hless : start < mid)
    (h : s.takeExactly (Span.length ⟨start, mid⟩) = (.ok data, s')) :
    data = (left.drop start).take (Span.length ⟨start, mid⟩) ∧ mid ≤ left.length
      ∧ s'.left = left.drop mid := by
  obtain ⟨hdata, hs⟩ := left_of_takeExactly h
  have hlen : left.length - start = Span.length ⟨start, mid⟩ + s'.left.length := by
    rw [← List.length_drop, ← hleft, hs, List.length_append, hdata]
  have hmid : mid = start + Span.length ⟨start, mid⟩ := by
    simp only [Span.length]
    omega
  refine ⟨?_, ?_, ?_⟩
  · rw [← hleft, hs, List.take_left' hdata]
  · omega
  · rw [hmid, ← List.drop_drop, ← hleft, hs]
    exact (List.drop_left' hdata).symm

/-- Each call was handed the bytes that the source had at its range. -/
theorem Took.data_eq (h : Took spans s calls result s') (htiles : Tiles start spans stop) {left : Bytes}
    (hleft : s.left = left.drop start) {call : DrainCall} (hcall : call ∈ calls) :
    call.data = (left.drop call.span.start).take call.span.length ∧ call.span.stop ≤ left.length := by
  induction h generalizing start with
  | all s => cases hcall
  | ended _ => cases hcall
  | failed e taken =>
    cases htiles with
    | next more htiles =>
      obtain rfl := List.mem_singleton.mp hcall
      obtain ⟨hdata, hle, -⟩ := left_of_range hleft more taken
      exact ⟨hdata, hle⟩
  | next taken later ih =>
    cases htiles with
    | next more htiles =>
      obtain ⟨hdata, hle, hrest⟩ := left_of_range hleft more taken
      rcases List.mem_cons.mp hcall with rfl | hlater
      · exact ⟨hdata, hle⟩
      · exact ih htiles hrest hlater

/-- A read that succeeds has handed on all ranges, and the source is behind them. -/
theorem Took.whole (h : Took spans s calls result s') (hok : result = .ok ()) (htiles : Tiles start spans stop) :
    calls.map DrainCall.span = spans ∧ s.left = DrainCall.bytes calls ++ s'.left
      ∧ start + (DrainCall.bytes calls).length = stop := by
  induction h generalizing start with
  | all s =>
    cases htiles
    exact ⟨rfl, rfl, rfl⟩
  | ended _ => cases hok
  | failed _ _ => cases hok
  | @next span spans s s' s'' data calls result taken later ih =>
    cases htiles with
    | @next _ mid _ _ more htiles =>
      obtain ⟨hspans, hbytes, hlen⟩ := ih hok htiles
      obtain ⟨hdata, hleft⟩ := left_of_takeExactly taken
      rw [Span.length] at hdata
      refine ⟨congrArg _ hspans, ?_, ?_⟩
      · rw [hleft, hbytes, ← List.append_assoc]
        rfl
      · rw [DrainCall.length_bytes_cons, hdata]
        simp only
        omega

/-- A call that fails is the last one, and the source is behind its range. -/
theorem Took.of_failed (h : Took spans s calls result s') (htiles : Tiles start spans stop) {k : Nat} {span : Span}
    {data : Bytes} {e : ValueError} (hfailed : calls[k]? = some ⟨span, data, .error e⟩) :
    result = .error e ∧ calls.length = k + 1 ∧ s.left = DrainCall.bytes calls ++ s'.left
      ∧ start + (DrainCall.bytes calls).length = span.stop := by
  induction h generalizing start k with
  | all s => cases hfailed
  | ended _ => cases hfailed
  | failed e taken =>
    cases k with
    | zero =>
      cases hfailed
      cases htiles
      obtain ⟨hdata, hleft⟩ := left_of_takeExactly taken
      rw [Span.length] at hdata
      refine ⟨rfl, rfl, ?_, ?_⟩
      · rw [hleft, DrainCall.bytes, List.flatMap_singleton]
      · rw [DrainCall.bytes, List.flatMap_singleton, hdata]
        simp only
        omega
    | succ k => cases hfailed
  | @next span spans s s' s'' data calls result taken later ih =>
    cases k with
    | zero => cases hfailed
    | succ k =>
      cases htiles with
      | @next _ mid _ _ more htiles =>
        obtain ⟨hresult, hlast, hbytes, hlen⟩ := ih htiles hfailed
        obtain ⟨hdata, hleft⟩ := left_of_takeExactly taken
        rw [Span.length] at hdata
        refine ⟨hresult, congrArg Nat.succ hlast, ?_, ?_⟩
        · rw [hleft, hbytes, ← List.append_assoc]
          rfl
        · rw [DrainCall.length_bytes_cons, hdata]
          simp only
          omega

/-- A source that has all the bytes and is steady does not fail. -/
theorem Took.of_steady (h : Took spans s calls result s') (hs : s.Steady) (htiles : Tiles start spans stop)
    (hle : stop ≤ start + s.left.length) :
    result = .ok ()
      ∨ ∃ (k : Nat) (span : Span) (data : Bytes) (e : ValueError), calls[k]? = some ⟨span, data, .error e⟩ := by
  induction h generalizing start with
  | all s => exact .inl rfl
  | @ended span spans s s' e taken =>
    cases htiles with
    | @next _ mid _ _ more htiles =>
      have hroom : Span.length ⟨start, mid⟩ ≤ s.left.length := by
        have hmid := htiles.le
        rw [Span.length]
        simp only
        omega
      have htake := hs.agrees_takeExactly (Span.length ⟨start, mid⟩)
      rw [if_pos hroom, taken] at htake
      cases htake.1
  | failed e taken => exact .inr ⟨0, _, _, e, rfl⟩
  | @next span spans s s' s'' data calls result taken later ih =>
    cases htiles with
    | @next _ mid _ _ more htiles =>
      obtain ⟨hdata, hleft⟩ := left_of_takeExactly taken
      have hlen : s.left.length = Span.length ⟨start, mid⟩ + s'.left.length := by
        rw [hleft, List.length_append, hdata]
      have htake := hs.agrees_takeExactly (Span.length ⟨start, mid⟩)
      rw [if_pos (by omega), taken] at htake
      have hrest : stop ≤ mid + s'.left.length := by
        simp only [Span.length] at hlen
        omega
      exact (ih htake.2.2.2 htiles hrest).imp id fun ⟨k, hk⟩ => ⟨k + 1, hk⟩

end Source

/-! ### Staging -/

theorem Outlet.stage_eq {o : Outlet} {total unit : Nat} (hroom : o.staging.Allocates total unit)
    (produce : Span → τ → Except ValueError Bytes × τ) (t : τ) :
    o.stage total unit produce t =
      let run := runEach (Sink.putSpan produce) (o.staging.cuts total unit) (o.sink, t)
      (run.1.map fun _ => total, ⟨run.2.1, o.staging⟩, run.2.2) := by
  simp only [stage, StagingLimits.run_eq _ _ hroom]

theorem Inlet.stage_eq {i : Inlet} {total unit : Nat} (hroom : i.staging.Allocates total unit)
    (consume : Span → Bytes → τ → Except ValueError Unit × τ) (t : τ) :
    i.stage total unit consume t =
      let run := runEach (Source.takeSpan consume) (i.staging.cuts total unit) (i.source, t)
      (run.1.map fun _ => total, ⟨run.2.1, i.staging⟩, run.2.2) := by
  simp only [stage, StagingLimits.run_eq _ _ hroom]

/-- A record of the calls shows nothing but to who looks at it. -/
theorem Outlet.stage_recordFills (o : Outlet) (total unit : Nat)
    (produce : Span → τ → Except ValueError Bytes × τ)
    (t : τ) (done : List FillCall) :
    let seen := o.stage total unit (recordFills produce) (t, done)
    o.stage total unit produce t = (seen.1, seen.2.1, seen.2.2.1) :=
  have hcall (span : Span) (s : τ × List FillCall) :
      produce span s.1 = ((recordFills produce span s).1, (recordFills produce span s).2.1) := rfl
  o.stage_map hcall total unit (t, done)

theorem Inlet.stage_recordDrains (i : Inlet) (total unit : Nat)
    (consume : Span → Bytes → τ → Except ValueError Unit × τ) (t : τ) (done : List DrainCall) :
    let seen := i.stage total unit (recordDrains consume) (t, done)
    i.stage total unit consume t = (seen.1, seen.2.1, seen.2.2.1) :=
  have hcall (span : Span) (data : Bytes) (s : τ × List DrainCall) : consume span data s.1 =
      ((recordDrains consume span data s).1, (recordDrains consume span data s).2.1) := rfl
  i.stage_map hcall total unit (t, done)

/-- A staged write of `total` bytes and the calls that it made. -/
structure StagedWrite (limits : StagingLimits) (total unit : Nat) (s : Sink) (calls : List FillCall)
    (result : Except ValueError Nat) (s' : Sink) : Prop where
  ranges : limits.HandsOut total unit (calls.map FillCall.span)
  /-- A write that succeeds has made all the bytes once, and the sink has them in order. -/
  whole : ∀ n, result = .ok n → n = total ∧ Tiles 0 (calls.map FillCall.span) total
    ∧ s'.bytes = s.bytes ++ FillCall.bytes calls ∧ (FillCall.bytes calls).length = total
  /-- A call that fails ends the write, and the sink has the bytes of the ranges before. -/
  failed : ∀ (k : Nat) (span : Span) (e : ValueError), calls[k]? = some ⟨span, .error e⟩ →
    result = .error e ∧ calls.length = k + 1 ∧ s'.bytes = s.bytes ++ FillCall.bytes (calls.take k)
      ∧ (FillCall.bytes (calls.take k)).length = span.start
  /-- Without room for the buffer nothing is made or written. -/
  refused : ¬ limits.Allocates total unit → result = .error .capacityOverflow ∧ calls = [] ∧ s' = s
  /-- Nothing else ends it, if the sink takes some with every write. -/
  ends : limits.Allocates total unit → s.Steady → result = .ok total
    ∨ ∃ (k : Nat) (span : Span) (e : ValueError), calls[k]? = some ⟨span, .error e⟩

/-- A staged read of `total` bytes and the calls that it made. -/
structure StagedRead (limits : StagingLimits) (total unit : Nat) (s : Source) (calls : List DrainCall)
    (result : Except ValueError Nat) (s' : Source) : Prop where
  ranges : limits.HandsOut total unit (calls.map DrainCall.span)
  /-- Each call was handed the bytes that the source had at its range. -/
  data : ∀ call ∈ calls, call.data = (s.left.drop call.span.start).take call.span.length
    ∧ call.span.stop ≤ s.left.length
  /-- A read that succeeds has handed on all the bytes once, and taken them and no more. -/
  whole : ∀ n, result = .ok n → n = total ∧ Tiles 0 (calls.map DrainCall.span) total ∧ total ≤ s.left.length
    ∧ DrainCall.bytes calls = s.left.take total ∧ s'.left = s.left.drop total
  /-- A call that fails ends the read, and the bytes up to the end of its range have been taken. -/
  failed : ∀ (k : Nat) (span : Span) (data : Bytes) (e : ValueError), calls[k]? = some ⟨span, data, .error e⟩ →
    result = .error e ∧ calls.length = k + 1 ∧ s'.left = s.left.drop span.stop
  /-- Without room for the buffer nothing is read or handed on. -/
  refused : ¬ limits.Allocates total unit → result = .error .capacityOverflow ∧ calls = [] ∧ s' = s
  /-- Nothing else ends it, if the source has all the bytes and gives some with every read. -/
  ends : limits.Allocates total unit → s.Steady → total ≤ s.left.length → result = .ok total
    ∨ ∃ (k : Nat) (span : Span) (data : Bytes) (e : ValueError), calls[k]? = some ⟨span, data, .error e⟩

variable {limits : StagingLimits} {total unit : Nat}

theorem Sink.Wrote.staged {s s' : Sink} {calls : List FillCall} {result : Except ValueError Unit}
    (h : Wrote (limits.cuts total unit) s calls result s') (hpos : 0 < unit) (hroom : limits.Allocates total unit) :
    StagedWrite limits total unit s calls (result.map fun _ => total) s' where
  ranges := StagingLimits.handsOut_of_front hpos h.front
  whole n hn := by
    cases result with
    | error e => cases hn
    | ok _ =>
      cases hn
      have htiles : Tiles 0 (limits.cuts total unit) total := StagingLimits.tiles_cuts unit
      obtain ⟨hspans, hbytes, hlen⟩ := h.whole rfl htiles
      exact ⟨rfl, hspans ▸ htiles, hbytes, by omega⟩
  failed k span e hk := by
    obtain ⟨rfl, hlast, hbytes, hlen⟩ := h.of_failed (StagingLimits.tiles_cuts unit) hk
    exact ⟨rfl, hlast, hbytes, by omega⟩
  refused hnot := absurd hroom hnot
  ends _ hs := (h.of_steady hs).imp (fun hok => by rw [hok]; rfl) id

theorem Source.Took.staged {s s' : Source} {calls : List DrainCall} {result : Except ValueError Unit}
    (h : Took (limits.cuts total unit) s calls result s') (hpos : 0 < unit) (hroom : limits.Allocates total unit) :
    StagedRead limits total unit s calls (result.map fun _ => total) s' where
  ranges := StagingLimits.handsOut_of_front hpos h.front
  data call hcall := h.data_eq (StagingLimits.tiles_cuts unit) rfl hcall
  whole n hn := by
    cases result with
    | error e => cases hn
    | ok _ =>
      cases hn
      have htiles : Tiles 0 (limits.cuts total unit) total := StagingLimits.tiles_cuts unit
      obtain ⟨hspans, hleft, hlen⟩ := h.whole rfl htiles
      rw [Nat.zero_add] at hlen
      refine ⟨rfl, hspans ▸ htiles, ?_, ?_, ?_⟩
      · rw [hleft, List.length_append, hlen]
        exact Nat.le_add_right _ _
      · rw [hleft, List.take_left' hlen]
      · rw [hleft, List.drop_left' hlen]
  failed k span data e hk := by
    obtain ⟨rfl, hlast, hleft, hlen⟩ := h.of_failed (StagingLimits.tiles_cuts unit) hk
    rw [Nat.zero_add] at hlen
    exact ⟨rfl, hlast, by rw [hleft, List.drop_left' hlen]⟩
  refused hnot := absurd hroom hnot
  ends _ hs hle := by
    have hends := h.of_steady hs (StagingLimits.tiles_cuts unit) (by omega)
    exact hends.imp (fun hok => by rw [hok]; rfl) id

theorem StagingLimits.handsOut_nil : limits.HandsOut total unit [] where
  tiles := ⟨0, Nat.zero_le total, .none 0⟩
  aligned _ hrange := absurd hrange List.not_mem_nil
  fits _ hrange := absurd hrange List.not_mem_nil

theorem StagedWrite.of_not_allocates (h : ¬ limits.Allocates total unit) (s : Sink) :
    StagedWrite limits total unit s [] (.error .capacityOverflow) s where
  ranges := StagingLimits.handsOut_nil
  whole _ hn := by cases hn
  failed _ _ _ hk := by cases hk
  refused _ := ⟨rfl, rfl, rfl⟩
  ends hroom := absurd hroom h

theorem StagedRead.of_not_allocates (h : ¬ limits.Allocates total unit) (s : Source) :
    StagedRead limits total unit s [] (.error .capacityOverflow) s where
  ranges := StagingLimits.handsOut_nil
  data _ hcall := absurd hcall List.not_mem_nil
  whole _ hn := by cases hn
  failed _ _ _ _ hk := by cases hk
  refused _ := ⟨rfl, rfl, rfl⟩
  ends hroom := absurd hroom h

/-- **A staged transfer goes through its bytes once**, in ranges of whole elements, and one that fails has moved the
bytes up to there. -/
theorem StagingLimits.ranges_exact (limits : StagingLimits) {unit : Nat} (hunit : 0 < unit) (total : Nat) :
    let chunk := limits.chunkLength total unit
    (total ≠ 0 → 0 < chunk) ∧ chunk ≤ total ∧ (chunk = total ∨ unit ∣ chunk)
      ∧ (limits.tier total = .chunked → chunk ≤ max limits.maxBufferSize unit)
      ∧ (∀ (τ : Type) (produce : Span → τ → Except ValueError Bytes × τ) (t : τ) (o : Outlet),
        Fills produce → o.staging = limits →
        let got := o.stage total unit produce t
        let seen := o.stage total unit (recordFills produce) (t, [])
        got = (seen.1, seen.2.1, seen.2.2.1)
          ∧ StagedWrite limits total unit o.sink seen.2.2.2 got.1 got.2.1.sink)
      ∧ ∀ (τ : Type) (consume : Span → Bytes → τ → Except ValueError Unit × τ) (t : τ) (i : Inlet),
        i.staging = limits →
        let got := i.stage total unit consume t
        let seen := i.stage total unit (recordDrains consume) (t, [])
        got = (seen.1, seen.2.1, seen.2.2.1)
          ∧ StagedRead limits total unit i.source seen.2.2.2 got.1 got.2.1.source := by
  refine ⟨limits.chunkLength_pos unit, limits.chunkLength_le total unit, limits.chunkLength_eq_or_dvd total hunit,
    limits.chunkLength_le_of_chunked total hunit, ?_, ?_⟩
  · rintro τ produce t o hproduce rfl
    have hsame := o.stage_recordFills total unit produce t []
    refine ⟨hsame, ?_⟩
    by_cases hroom : o.staging.Allocates total unit
    · obtain ⟨calls, hcalls, hwrote⟩ := Sink.wrote_runEach hproduce (o.staging.cuts total unit) o.sink t []
      simp only [hsame, Outlet.stage_eq hroom, hcalls, List.nil_append]
      exact hwrote.staged hunit hroom
    · simp only [Outlet.stage_of_not_allocates hroom]
      exact .of_not_allocates hroom o.sink
  · rintro τ consume t i rfl
    have hsame := i.stage_recordDrains total unit consume t []
    refine ⟨hsame, ?_⟩
    by_cases hroom : i.staging.Allocates total unit
    · obtain ⟨calls, hcalls, htook⟩ := Source.took_runEach consume (i.staging.cuts total unit) i.source t []
      simp only [hsame, Inlet.stage_eq hroom, hcalls, List.nil_append]
      exact htook.staged hunit hroom
    · simp only [Inlet.stage_of_not_allocates hroom]
      exact .of_not_allocates hroom i.source

/-- Fourteen bytes of elements of three through a buffer for two of them. Each range stores one byte of its own, and the
third fails. -/
theorem StagingLimits.ranges_exact_of_failing_calls :
    let limits : StagingLimits := { poolThreshold := 0, maxBufferSize := 7 }
    let e : ValueError := .lengthMismatch 1 0
    let fill := fun (span : Span) (front : Bytes) (_ : Unit) =>
      if span.start < 12 then (.ok (), front.set (span.start / 6) 9, ()) else (.error e, front, ())
    let consume := fun (span : Span) (_ : Bytes) (_ : Unit) => (if span.start < 6 then .ok () else .error e, ())
    let o : Outlet := ⟨{ plan := [.fail .interrupted, .give 2] }, limits⟩
    let i : Inlet := ⟨⟨List.replicate 14 7, [.give 5, .fail .interrupted]⟩, limits⟩
    let written := o.stage 14 3 (storing fill) (List.replicate 6 0, ())
    let read := i.stage 14 3 consume ()
    limits.chunkLength 14 3 = 6 ∧ 3 ∣ limits.chunkLength 14 3
      ∧ written.1 = .error e ∧ written.2.1.sink.bytes = [9, 0, 0, 0, 0, 0, 9, 9, 0, 0, 0, 0]
      ∧ read.1 = .error e ∧ read.2.1.source.left = [7, 7] := by
  intro limits e fill consume o i written read
  have hfill : Fills (storing fill) := fills_storing fun span front t => by
    simp only [fill]
    split
    · exact List.length_set
    · rfl
  have hfills : (o.stage 14 3 (recordFills (storing fill)) ((List.replicate 6 0, ()), [])).2.2.2 =
      [⟨⟨0, 6⟩, .ok [9, 0, 0, 0, 0, 0]⟩, ⟨⟨6, 12⟩, .ok [9, 9, 0, 0, 0, 0]⟩,
        ⟨⟨12, 14⟩, .error e⟩] := by cbv
  have hdrains : (i.stage 14 3 (recordDrains consume) ((), [])).2.2.2 =
      [⟨⟨0, 6⟩, List.replicate 6 7, .ok ()⟩, ⟨⟨6, 12⟩, List.replicate 6 7, .error e⟩] := by cbv
  obtain ⟨-, -, hcut, -, hwrites, hreads⟩ := ranges_exact limits (show 0 < 3 by decide) 14
  obtain ⟨-, hwrite⟩ := hwrites _ (storing fill) (List.replicate 6 0, ()) o hfill rfl
  obtain ⟨-, hread⟩ := hreads _ consume () i rfl
  rw [hfills] at hwrite
  rw [hdrains] at hread
  obtain ⟨hwritten, -, hbytes, -⟩ := hwrite.failed 2 ⟨12, 14⟩ e rfl
  obtain ⟨hfailed, -, hleft⟩ := hread.failed 1 ⟨6, 12⟩ (List.replicate 6 7) e rfl
  exact ⟨by decide, hcut.resolve_left (by decide), hwritten, hbytes, hfailed, hleft⟩

end MessageWire
