import MessageWire.Proofs.Value.Canonical
import MessageWire.Proofs.Value.Lockstep
import MessageWire.Proofs.Value.Progress
/-!
# Reads into growing destinations

A growing destination gets all the elements of a collection or none. What is decoded is put aside first, and it joins
the members only when all of it is there; so a read that fails at some element, or at some byte of a stream, leaves the
members as they were (`Collection.growing_exact`).

`Collection.grow` and `Collection.growFrom` are these reads step by step. They come to what becomes of a new list that
is read as a whole (`Collection.grow_eq`, `Collection.growFrom_eq`).
-/

namespace MessageWire

variable {α : Type}

/-! ### Elements put aside -/

/-- Decodes elements onto the end of others. Those before one that fails stay there. -/
def Codec.decodeBehind (c : Codec α) (bs : Bytes) (done : List α) : Except ValueError Unit × List α :=
  match c with
  | .block p order => (.ok (), done ++ p.ofImages (order.turn p.size bs))
  | .loop e =>
    let (vs, error?) := e.decodeEach (blocks e.size bs) done.reverse
    (match error? with | none => .ok () | some err => .error err, vs)

namespace Codec

variable {c : Codec α} {bs : Bytes} {vs : List α} {e : ValueError}

theorem decodeBehind_eq (c : Codec α) (hpos : 0 < c.size) (bs : Bytes) (done : List α) :
    (c.decodeBehind bs done).1.map (fun () => (c.decodeBehind bs done).2) = (c.decodeAll bs).map (done ++ ·) := by
  cases c with
  | block p order => rfl
  | loop e =>
    have heach := e.decodeEach_eq (blocks e.size bs) done.reverse
    rw [decodeAll_eq (loop e) hpos]
    rw [List.reverse_reverse] at heach
    refine Eq.trans ?_ heach
    simp only [decodeBehind]
    generalize e.decodeEach (blocks e.size bs) done.reverse = run
    obtain ⟨vs, _ | err⟩ := run
    · rfl
    · rfl

theorem decodeBehind_of_ok (hpos : 0 < c.size) (h : c.decodeAll bs = .ok vs) (done : List α) :
    c.decodeBehind bs done = (.ok (), done ++ vs) := by
  have heq := c.decodeBehind_eq hpos bs done
  rw [h] at heq
  generalize c.decodeBehind bs done = got at heq ⊢
  obtain ⟨_ | _, vs'⟩ := got
  · cases heq
  · cases heq
    rfl

theorem decodeBehind_of_error (hpos : 0 < c.size) (h : c.decodeAll bs = .error e) (done : List α) :
    (c.decodeBehind bs done).1 = .error e := by
  have heq := c.decodeBehind_eq hpos bs done
  rw [h] at heq
  generalize c.decodeBehind bs done = got at heq ⊢
  obtain ⟨_ | _, vs'⟩ := got
  · cases heq
    rfl
  · cases heq

end Codec

/-- A growing destination while it is read into: its members, and what was decoded and is still put aside. -/
structure Growing (α : Type) where
  members : List α
  aside : List α

namespace Growing

def holding (members : List α) : Growing α := ⟨members, []⟩

def decode (c : Collection α) (bs : Bytes) (g : Growing α) : Except ValueError Unit × Growing α :=
  let (result, aside) := c.codec.decodeBehind bs g.aside
  (result, { g with aside := aside })

def settle (mode : FillMode) (g : Growing α) : Growing α := ⟨mode.fill g.members g.aside, []⟩

variable {c : Collection α} {bs : Bytes} {vs : List α} {e : ValueError}

theorem members_decode (c : Collection α) (bs : Bytes) (g : Growing α) : (g.decode c bs).2.members = g.members := rfl

theorem decode_of_ok (h : c.codec.decodeAll bs = .ok vs) (g : Growing α) :
    g.decode c bs = (.ok (), { g with aside := g.aside ++ vs }) := by
  rw [decode, Codec.decodeBehind_of_ok c.size_pos h]

theorem decode_of_error (h : c.codec.decodeAll bs = .error e) (g : Growing α) : (g.decode c bs).1 = .error e :=
  Codec.decodeBehind_of_error c.size_pos h g.aside

end Growing

namespace Collection

variable (c : Collection α)

def grow (src : Bytes) (members : List α) (mode : FillMode) : Except ValueError ReadOutcome × Growing α :=
  let g := Growing.holding members
  match CountHeader.read src with
  | .error e => (.error e, g)
  | .ok ⟨none, _⟩ => (.ok .null, g)
  | .ok ⟨some count, size⟩ =>
    match c.body ⟨some count, size⟩ src with
    | .error e => (.error e, g)
    | .ok (bytes, stop) =>
      match g.decode c bytes with
      | (.error e, g') => (.error e, g')
      | (.ok (), g') => (.ok ⟨some count, stop⟩, g'.settle mode)

/-- Reads a collection from a source into a growing destination, chunk by chunk. -/
def growFrom (members : List α) (mode : FillMode) (i : Inlet) : Except ValueError ReadOutcome × Growing α × Inlet :=
  let g := Growing.holding members
  match readCountFrom i with
  | (.error e, i') => (.error e, g, i')
  | (.ok ⟨none, _⟩, i') => (.ok .null, g, i')
  | (.ok ⟨some count, size⟩, i') =>
    match c.bodyLength count with
    | .error e => (.error (e.after size), g, i')
    | .ok total =>
      match i'.stage total c.elementSize (fun _ bs g => g.decode c bs) g with
      | (.error e, i'', g') => (.error (e.after size), g', i'')
      | (.ok body, i'', g') => (.ok ⟨some count, size + body⟩, g'.settle mode, i'')

/-! ### One by one and as a whole -/

theorem length_of_body {c : Collection α} {count size : Nat} {src bytes : Bytes} {stop : Nat}
    (h : c.body ⟨some count, size⟩ src = .ok (bytes, stop)) : bytes.length = count * c.elementSize := by
  rw [Format.body_eq] at h
  obtain ⟨length, hlength, hbytes⟩ := of_bind_eq_ok h
  rw [Format.map_eq_bind] at hbytes
  obtain ⟨_, hbehind, hsame⟩ := of_bind_eq_ok hbytes
  cases hsame
  rw [(Format.of_behind_eq_ok hbehind).1]
  exact c.eq_of_bodyLength hlength

theorem length_of_decodeAll {c : Collection α} {bytes : Bytes} {count : Nat} {vs : List α}
    (hlen : bytes.length = count * c.elementSize) (h : c.codec.decodeAll bytes = .ok vs) : vs.length = count := by
  rw [c.codec.length_of_decodeAll c.size_pos h, hlen]
  exact Nat.mul_div_cancel _ c.size_pos

/-- A buffer that is read element by element is read as a whole. -/
theorem grow_eq (src : Bytes) (members : List α) (mode : FillMode) :
    ((c.grow src members mode).1, (c.grow src members mode).2.members) = c.readInto src members mode := by
  unfold grow readInto read
  cases hread : CountHeader.read src with
  | error e => rfl
  | ok header =>
    obtain ⟨_ | count, size⟩ := header
    -- Null is told as one byte, and that is all there is to its header.
    · obtain rfl := CountHeader.size_of_read_null hread
      rfl
    · simp only [bind, Except.bind, CountHeader.isNull, Option.isNone_some, Bool.false_eq_true, if_false]
      cases hbody : c.body ⟨some count, size⟩ src with
      | error e => rfl
      | ok found =>
        obtain ⟨bytes, stop⟩ := found
        simp only
        cases hdecode : c.codec.decodeAll bytes with
        | error e =>
          have herror := Growing.decode_of_error hdecode (.holding members)
          have hmembers := Growing.members_decode c bytes (.holding members)
          generalize Growing.decode c bytes (.holding members) = got at herror hmembers ⊢
          obtain ⟨_, g⟩ := got
          obtain rfl := herror
          exact congrArg (Prod.mk _) hmembers
        | ok vs =>
          obtain rfl := length_of_decodeAll (length_of_body hbody) hdecode
          rw [Growing.decode_of_ok hdecode]
          rfl

/-! ### Chunk by chunk -/

/-- What becomes of a destination over the spans of `count` elements, next to what becomes of a new list. -/
structure GrowsBy (count : Nat) (g : Growing α) (done : List α)
    (each : Except ValueError Unit × Source × Growing α)
    (all : Except ValueError Unit × Source × List α) : Prop where
  result : each.1 = all.1
  source : each.2.1 = all.2.1
  members : each.2.2.members = g.members
  ok : each.1 = .ok () → each.2.2.aside = all.2.2.reverse ∧ all.2.2.length = done.length + count

variable {c}

theorem growsBy_takeSpan (c : Collection α) (s : Source) {g : Growing α} {done : List α} {span : Span} {count : Nat}
    (haside : g.aside = done.reverse) (hspan : span.length = count * c.elementSize) :
    GrowsBy count g done (Source.takeSpan (fun _ bs g => g.decode c bs) span (s, g))
      (Source.takeSpan c.decodeSpan span (s, done)) := by
  unfold Source.takeSpan
  simp only
  cases htake : s.takeExactly span.length with
  | mk taken s' =>
  cases taken with
  | error e =>
    refine ⟨rfl, rfl, rfl, fun hok => ?_⟩
    cases hok
  | ok data =>
    have hlen : data.length = count * c.elementSize := (Source.left_of_takeExactly htake).1.trans hspan
    simp only [decodeSpan]
    cases hdecode : c.codec.decodeAll data with
    -- What was decoded before the failure stays aside. The new list has no such elements, but nobody asks for them.
    | error e =>
      have herror := Growing.decode_of_error hdecode g
      refine ⟨herror, rfl, rfl, fun hok => ?_⟩
      cases herror.symm.trans hok
    | ok vs =>
      rw [Growing.decode_of_ok hdecode]
      refine ⟨rfl, rfl, rfl, fun _ => ⟨?_, ?_⟩⟩
      · rw [List.reverse_append, List.reverse_reverse, haside]
      · rw [List.length_append, List.length_reverse, length_of_decodeAll hlen hdecode, Nat.add_comm]

/-- A destination that has put aside the elements of a list, which are kept last one first. -/
def PutAside (one : Source × Growing α) (whole : Source × List α) : Prop :=
  one.1 = whole.1 ∧ one.2.aside = whole.2.reverse

theorem lockstep_decode (c : Collection α) :
    Lockstep c.elementSize (Source.takeSpan (fun _ bs g => Growing.decode c bs g)) (Source.takeSpan c.decodeSpan)
      PutAside
      (fun count one whole each all => GrowsBy count one.2 whole.2 each all) where
  none := by
    rintro ⟨s, g⟩ ⟨_, done⟩ ⟨rfl, haside⟩
    exact ⟨rfl, rfl, rfl, fun _ => ⟨haside, rfl⟩⟩
  span := by
    rintro span count ⟨s, g⟩ ⟨_, done⟩ ⟨rfl, haside⟩ hspan
    exact growsBy_takeSpan c s haside hspan
  result _ _ _ _ _ h := h.result
  next _ _ _ _ _ _ h := ⟨h.source, (h.ok rfl).1⟩
  append := by
    rintro count later ⟨s, g⟩ ⟨_, done⟩ ⟨s', g'⟩ ⟨_, done'⟩ each all h hlater
    obtain ⟨-, hlen⟩ := h.ok rfl
    refine ⟨hlater.result, hlater.source, hlater.members.trans h.members, fun hok => ?_⟩
    obtain ⟨haside, hlen'⟩ := hlater.ok hok
    refine ⟨haside, ?_⟩
    rw [hlen', show done'.length = done.length + count from hlen, Nat.add_assoc]
  stop _ _ _ _ _ _ _ h := ⟨h.result, h.source, h.members, fun hok => nomatch hok⟩

/-- A stream that is read chunk by chunk is read as a whole. -/
theorem growFrom_eq (c : Collection α) (members : List α) (mode : FillMode) (i : Inlet) :
    let got := c.growFrom members mode i
    (got.1, got.2.1.members, got.2.2) = c.readIntoFrom members mode i := by
  unfold growFrom readIntoFrom readFrom readCountFrom
  generalize hheader : CountHeader.readFrom i.source = first
  obtain ⟨e | ⟨_ | count, size⟩, s⟩ := first
  · rfl
  · obtain rfl := CountHeader.size_of_null hheader
    rfl
  · have hstart : PutAside (s, Growing.holding members) (s, ([] : List α)) := ⟨rfl, rfl⟩
    unfold readElementsFrom Inlet.stage
    simp only
    by_cases hword : count * c.elementSize ≤ maxWord
    case neg => simp only [c.bodyLength_of_lt (Nat.lt_of_not_le hword), Growing.holding, settle]
    simp only [c.bodyLength_of_le hword]
    by_cases hroom : i.staging.Allocates (count * c.elementSize) c.elementSize
    case neg => simp only [StagingLimits.run_of_not_allocates hroom, Growing.holding, settle]
    obtain ⟨hresult, -, hgrows⟩ := c.lockstep_decode.run c.size_pos hroom hstart
    generalize StagingLimits.run _ _ _ _ (s, Growing.holding members) = each at hresult hgrows ⊢
    generalize StagingLimits.run _ _ _ _ (s, ([] : List α)) = all at hresult hgrows ⊢
    obtain ⟨result, source, g⟩ := each
    obtain ⟨result', source', done⟩ := all
    obtain rfl : result = result' := hresult
    obtain rfl : source = source' := hgrows.source
    have hmembers : g.members = members := hgrows.members
    cases result with
    | error e =>
      simp only [hmembers]
      rfl
    | ok body =>
      obtain ⟨haside, hlen⟩ := hgrows.ok rfl
      -- The outcome tells the count of the header, the whole read that of its elements.
      have hread : done.reverse.length = count := by
        rw [List.length_reverse, hlen]
        exact Nat.zero_add count
      change g.aside = done.reverse at haside
      simp only [settle, Growing.settle, hmembers, haside, hread]

/-! ### All or nothing -/

/-- Hands the elements that were read to a target, which `extend` adds them to. -/
def handOver {σ : Type} (extend : σ → List α → σ) (target : σ) :
    Except ValueError (Option (List α) × Nat) → Except ValueError ReadOutcome × σ
  | .error e => (.error e, target)
  | .ok (none, consumed) => (.ok ⟨none, consumed⟩, target)
  | .ok (some vs, consumed) => (.ok ⟨some vs.length, consumed⟩, extend target vs)

/-- Reads a collection and hands its elements to a target of any kind. -/
def readExtend (c : Collection α) {σ : Type} (extend : σ → List α → σ) (src : Bytes) (target : σ) :
    Except ValueError ReadOutcome × σ := handOver extend target (c.read src)

/-- A target that was read into is as it was, or has been given all elements of the list that a read finds. -/
structure AllOrNothing {σ : Type} (extend : σ → List α → σ) (target : σ)
    (read : Except ValueError (Option (List α) × Nat)) (got : Except ValueError ReadOutcome × σ) : Prop where
  error : ∀ e, got.1 = .error e → read = .error e ∧ got.2 = target
  null : ∀ consumed, got.1 = .ok ⟨none, consumed⟩ → read = .ok (none, consumed) ∧ got.2 = target
  elements : ∀ count consumed, got.1 = .ok ⟨some count, consumed⟩ →
    ∃ vs, vs.length = count ∧ read = .ok (some vs, consumed) ∧ got.2 = extend target vs

theorem allOrNothing_handOver {σ : Type} (extend : σ → List α → σ) (target : σ)
    (read : Except ValueError (Option (List α) × Nat)) :
    AllOrNothing extend target read (handOver extend target read) := by
  obtain e | ⟨_ | vs, consumed⟩ := read
  · refine ⟨fun e' he => ?_, fun _ h => (nomatch h), fun _ _ h => (nomatch h)⟩
    cases he
    exact ⟨rfl, rfl⟩
  · refine ⟨fun _ h => (nomatch h), fun n hn => ?_, fun _ _ h => (nomatch h)⟩
    cases hn
    exact ⟨rfl, rfl⟩
  · refine ⟨fun _ h => (nomatch h), fun _ h => (nomatch h), fun count n hn => ?_⟩
    cases hn
    exact ⟨vs, rfl, rfl, rfl⟩

theorem settle_eq_handOver (mode : FillMode) (members : List α) (read : Except ValueError (Option (List α) × Nat)) :
    settle mode members read = handOver mode.fill members read := by
  obtain e | ⟨_ | vs, consumed⟩ := read
  · rfl
  · rfl
  · rfl

/-- **Growing destinations get everything or nothing**: all the elements that a new list would get, in place of the
members or behind them, or none. -/
theorem growing_exact (c : Collection α) (members : List α) :
    (∀ src, AllOrNothing (fun _ read => read) members (c.read src) (c.readInto src members .overwrite)
        ∧ AllOrNothing (fun old read => old ++ read) members (c.read src) (c.readInto src members .append))
      ∧ (∀ i : Inlet,
        let overwritten := c.readIntoFrom members .overwrite i
        let appended := c.readIntoFrom members .append i
        AllOrNothing (fun _ read => read) members (c.readFrom i).1 (overwritten.1, overwritten.2.1)
          ∧ AllOrNothing (fun old read => old ++ read) members (c.readFrom i).1 (appended.1, appended.2.1)
          ∧ overwritten.2.2 = (c.readFrom i).2 ∧ appended.2.2 = (c.readFrom i).2)
      ∧ (∀ src, ∀ (σ : Type) (extend : σ → List α → σ) (target : σ),
        AllOrNothing extend target (c.read src) (c.readExtend extend src target))
      ∧ ∀ mode,
        (∀ src, ((c.grow src members mode).1, (c.grow src members mode).2.members) = c.readInto src members mode)
          ∧ ∀ i : Inlet, let grown := c.growFrom members mode i
            (grown.1, grown.2.1.members, grown.2.2) = c.readIntoFrom members mode i := by
  have hsettle (mode : FillMode) (read : Except ValueError (Option (List α) × Nat)) :
      AllOrNothing mode.fill members read (settle mode members read) := by
    rw [settle_eq_handOver]
    exact allOrNothing_handOver _ _ _
  refine ⟨fun src => ⟨hsettle .overwrite _, hsettle .append _⟩, fun i => ⟨?_, ?_, rfl, rfl⟩,
    fun src σ extend target => allOrNothing_handOver extend target _,
    fun mode => ⟨fun src => c.grow_eq src members mode, c.growFrom_eq members mode⟩⟩
  · exact hsettle .overwrite (c.readFrom i).1
  · exact hsettle .append (c.readFrom i).1

/-- Two characters in either mode, and three, the last of which is none, in chunks of one. -/
theorem growing_exact_of_characters :
    let c : Collection Char := ⟨.loop (Ty.charCodec .little), by decide⟩
    let two : Bytes := [1, 2, 98, 0, 0, 0, 99, 0, 0, 0]
    let i : Inlet := ⟨⟨[1, 3, 98, 0, 0, 0, 99, 0, 0, 0, 0, 0xd8, 0, 0], []⟩,
      { poolThreshold := 0, maxBufferSize := 4 }⟩
    (c.readInto two ['a'] .overwrite).2 = ['b', 'c'] ∧ (c.readInto two ['a'] .append).2 = ['a', 'b', 'c']
      ∧ (c.readIntoFrom ['a'] .append i).2.1 = ['a'] ∧ (c.readIntoFrom ['a'] .append i).2.2.source.left = [] := by
  intro c two i
  obtain ⟨hbuffer, hstream, -⟩ := c.growing_exact ['a']
  have hread : c.read two = .ok (some ['b', 'c'], 10) := by decide +kernel
  have hover : (c.readInto two ['a'] .overwrite).1 = .ok ⟨some 2, 10⟩ := by decide +kernel
  have hbehind : (c.readInto two ['a'] .append).1 = .ok ⟨some 2, 10⟩ := by decide +kernel
  have hfail : (c.readIntoFrom ['a'] .append i).1 = .error (.invalidValue "char" "0xd800 is not a scalar value") := by
    decide +kernel
  obtain ⟨vs, -, hvs, hplace⟩ := (hbuffer two).1.elements 2 10 hover
  obtain ⟨ws, -, hws, hend⟩ := (hbuffer two).2.elements 2 10 hbehind
  rw [hread] at hvs hws
  cases hvs
  cases hws
  exact ⟨hplace, hend, ((hstream i).2.1.error _ hfail).2, by decide +kernel⟩

end Collection

end MessageWire
