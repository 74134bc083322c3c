import Mathlib
import MessageWire.Proofs.Value.Progress
import MessageWire.Proofs.Value.Streaming
/-!
# Staging limits make no difference

The limits choose how many bytes go through a buffer at a time, and that is all they do, as long as there can be such
a buffer. What a steady sink takes and what a steady source gives are the same under any two of them that have room for
the pool (`Collection.same_under_limits`). Without that room the same write may end the process
(`Collection.limits_make_a_difference`).

A write delivers the encoding and a read agrees with the one from a buffer, neither of which knows of limits. Reads that
fail may fail in different ways, for a transfer in one piece finds the end of the stream before it decodes anything. But
the end itself is found in the same place (`Collection.endsAt_readFrom`).
-/

namespace MessageWire

variable {α β τ : Type}

theorem Agrees.toOption {size : α → Nat} {left : Bytes} {expected? : Option α}
    {got : Except ValueError α × Source}
    (h : Agrees size left expected? got) : got.1.toOption = expected? := by
  cases expected? with
  | none =>
    obtain ⟨e, he⟩ := h
    rw [he]
    rfl
  | some a =>
    rw [h.1]
    rfl

theorem toOption_map (read : Except ValueError α) (f : α → β) : (read.map f).toOption = read.toOption.map f := by
  cases read <;> rfl

/-! ### Destinations of fixed size -/

namespace Collection

variable {c : Collection α} {w : Bytes} {want count : Nat} {vs : List α}

theorem elementsIn?_eq_some_iff :
    c.elementsIn? want w = some vs ↔ want ≤ w.length ∧ c.codec.decodeAll (w.take want) = .ok vs := by
  unfold elementsIn?
  split
  case isTrue hle =>
    cases c.codec.decodeAll (w.take want) with
    | error e => simp [Except.toOption]
    | ok vs' => simp [Except.toOption, hle]
  case isFalse hlt => simp [hlt]

theorem length_of_elementsIn? (h : c.elementsIn? (count * c.elementSize) w = some vs) : vs.length = count := by
  obtain ⟨hle, hdecode⟩ := elementsIn?_eq_some_iff.mp h
  rw [c.codec.length_of_decodeAll c.size_pos hdecode, List.length_take, Nat.min_eq_left hle]
  exact Nat.mul_div_cancel _ c.size_pos

/-- A destination with elements put onto the front of what is ahead. -/
def putAhead (vs : List α) (f : Codec.Filling α) : Codec.Filling α :=
  ⟨vs.reverse ++ f.done, f.ahead.drop vs.length⟩

theorem decodes_filling (c : Collection α) : c.Decodes c.codec.decodeSpan putAhead where
  ok span bs f vs hspan _ hdecode := by
    have hcount : span.length / c.codec.size = vs.length := by
      rw [hspan, c.codec.length_of_decodeAll c.size_pos hdecode]
    simp only [Codec.decodeSpan, Codec.decodeOnto_of_ok hdecode, hcount]
    rw [List.drop_of_length_le (List.length_take_le _ _), List.append_nil]
    rfl
  error span bs f e hdecode := by
    show (c.codec.decodeOnto bs _).1 = .error e
    rw [Codec.decodeOnto_fst, hdecode]
    rfl
  put_nil f := rfl
  put_put vs ws f := by simp [putAhead]

theorem agrees_unstageOnto (dst : List α) {i : Inlet} (hs : i.source.Steady) (hstaging : i.staging.Allocatable)
    (hlen : dst.length * c.elementSize ≤ i.source.left.length → dst.length * c.elementSize ≤ maxCapacity) :
    let got := c.codec.unstageOnto dst i
    Agrees Prod.fst i.source.left
      ((c.elementsIn? (dst.length * c.elementSize) i.source.left).map (dst.length * c.elementSize, ·))
      (got.1.map (·, got.2.2), got.2.1.source) := by
  unfold Codec.unstageOnto
  by_cases hword : dst.length * c.elementSize ≤ maxWord
  case neg =>
    have hlong : ¬ dst.length * c.elementSize ≤ i.source.left.length := fun hle =>
      hword (StagingLimits.le_maxWord (hlen hle))
    rw [Codec.bytesOf_of_lt (Nat.lt_of_not_le hword), elementsIn?, if_neg hlong]
    exact ⟨_, rfl⟩
  have hwhole : c.elementSize ∣ dst.length * c.elementSize := Nat.dvd_mul_left _ _
  have hstage := agrees_stage c.decodes_filling hs hstaging hlen hwhole ⟨[], dst⟩
  rw [Codec.bytesOf_of_le hword]
  simp only [show c.codec.size = c.elementSize from rfl]
  generalize i.stage _ _ _ _ = run at hstage ⊢
  obtain ⟨result, i', f⟩ := run
  cases helements : c.elementsIn? (dst.length * c.elementSize) i.source.left with
  | none =>
    rw [helements] at hstage
    obtain ⟨err, herror⟩ := hstage
    cases result with
    | error err' => exact ⟨_, rfl⟩
    | ok body => cases herror
  | some vs =>
    rw [helements] at hstage
    obtain ⟨hgot, hle, hrest, hsteady⟩ := hstage
    have hlen := length_of_elementsIn? helements
    cases result with
    | error err => cases hgot
    | ok body =>
      cases hgot
      refine ⟨?_, hle, hrest, hsteady⟩
      simp [hlen, Except.map]

theorem agrees_fillMemory {p : Plain α} (order : ByteOrder) (hpos : 0 < p.size) {i : Inlet} (hs : i.source.Steady)
    (dst : List α) :
    let c : Collection α := ⟨.block p order, hpos⟩
    let got := Codec.fillMemory p order dst i
    Agrees Prod.fst i.source.left
      ((c.elementsIn? (dst.length * p.size) i.source.left).map (dst.length * p.size, ·))
      (got.1.map (·, got.2.2), got.2.1.source) := by
  obtain ⟨hbytes, herror, hrest, hsteady⟩ := hs.fill (dst.length * p.size)
  simp only [Codec.fillMemory, herror, hbytes, List.length_take]
  unfold elementsIn?
  by_cases hle : dst.length * p.size ≤ i.source.left.length
  · rw [if_pos hle, if_neg (by omega)]
    exact ⟨rfl, hle, hrest, hsteady⟩
  · rw [if_neg hle, if_pos (by omega)]
    exact ⟨_, rfl⟩

/-- Both ways to fill a destination, as one block and element by element. -/
theorem agrees_fill (dst : List α) {i : Inlet} (hs : i.source.Steady) (hstaging : i.staging.Allocatable)
    (hlen : dst.length * c.elementSize ≤ i.source.left.length → dst.length * c.elementSize ≤ maxCapacity) :
    let got := c.codec.readOnto dst i
    Agrees Prod.fst i.source.left
      ((c.elementsIn? (dst.length * c.elementSize) i.source.left).map (dst.length * c.elementSize, ·))
      (got.1.map (·, got.2.2), got.2.1.source) := by
  obtain ⟨codec, hpos⟩ := c
  cases codec with
  | loop e => exact agrees_unstageOnto dst hs hstaging hlen
  | block p order => exact agrees_fillMemory order hpos hs dst

/-- A buffer behind a header is read onto a destination that has room. -/
theorem toOption_readOnto {size : Nat} {dst : List α} (hword : count * c.elementSize ≤ maxWord)
    (hread : CountHeader.read w = .ok ⟨some count, size⟩) (hle : size ≤ w.length) (hroom : count ≤ dst.length) :
    ((c.readOnto w dst).1.map (·, (c.readOnto w dst).2)).toOption
      = (c.elementsIn? (count * c.elementSize) (w.drop size)).map fun vs =>
        (⟨some count, size + count * c.elementSize⟩, vs ++ dst.drop count) := by
  unfold readOnto
  simp only [hread, if_neg (Nat.not_lt.mpr hroom), Format.body_eq, c.bodyLength_of_le hword, Except.bind, Format.behind,
    reaches_iff]
  cases helements : c.elementsIn? (count * c.elementSize) (w.drop size) with
  | some vs =>
    obtain ⟨hall, hdecode⟩ := elementsIn?_eq_some_iff.mp helements
    rw [List.length_drop] at hall
    have hlen := length_of_elementsIn? helements
    simp only [if_pos (show size + count * c.elementSize ≤ w.length by omega), Except.map,
      Codec.decodeOnto_of_ok hdecode, hlen]
    rfl
  | none =>
    by_cases hall : size + count * c.elementSize ≤ w.length
    · have hfst := Codec.decodeOnto_fst c.codec ((w.drop size).take (count * c.elementSize)) dst
      unfold elementsIn? at helements
      rw [List.length_drop, if_pos (by omega)] at helements
      cases hdecode : c.codec.decodeAll ((w.drop size).take (count * c.elementSize)) with
      | ok vs =>
        rw [hdecode] at helements
        cases helements
      | error e =>
        rw [hdecode] at hfst
        simp only [if_pos hall, Except.map]
        generalize c.codec.decodeOnto _ dst = got at hfst ⊢
        obtain ⟨result, dst'⟩ := got
        cases hfst
        rfl
    · simp only [if_neg hall, Except.map]
      rfl

theorem readOnto_of_maxWord_lt {size : Nat} {dst : List α} (hword : maxWord < count * c.elementSize)
    (hread : CountHeader.read w = .ok ⟨some count, size⟩) :
    c.readOnto w dst = (.error (.invalidLength count), dst) := by
  unfold readOnto shortage
  simp only [hread, Format.body_eq, c.bodyLength_of_lt hword, Except.bind, ite_self]

/-- Elements whose length is no word are in no buffer that there can be. -/
theorem toOption_readOnto_of_length {size : Nat} {dst : List α} (hlen : w.length ≤ maxCapacity)
    (hread : CountHeader.read w = .ok ⟨some count, size⟩) (hle : size ≤ w.length) (hroom : count ≤ dst.length) :
    ((c.readOnto w dst).1.map (·, (c.readOnto w dst).2)).toOption
      = (c.elementsIn? (count * c.elementSize) (w.drop size)).map fun vs =>
        (⟨some count, size + count * c.elementSize⟩, vs ++ dst.drop count) := by
  by_cases hword : count * c.elementSize ≤ maxWord
  · exact toOption_readOnto hword hread hle hroom
  · have hlong : ¬ count * c.elementSize ≤ (w.drop size).length := by
      intro hle'
      rw [List.length_drop] at hle'
      exact hword (StagingLimits.le_maxWord (by omega))
    rw [readOnto_of_maxWord_lt (Nat.lt_of_not_le hword) hread, elementsIn?, if_neg hlong]
    rfl

/-- What a read into a destination tells, together with the destination afterwards. -/
def withDestination (got : Except ValueError ReadOutcome × List α × Inlet) :
    Except ValueError (ReadOutcome × List α) :=
  got.1.map (·, got.2.1)

/-- From a steady stream a destination is read onto as from a buffer with the same bytes. -/
theorem agrees_readOntoFrom {i : Inlet} (hs : i.source.Steady) (hstaging : i.staging.Allocatable)
    (hlen : i.source.left.length ≤ maxCapacity) (dst : List α) :
    let whole := c.readOnto i.source.left dst
    Agrees (fun a => a.1.consumed) i.source.left (whole.1.map (·, whole.2)).toOption
      (withDestination (c.readOntoFrom dst i), (c.readOntoFrom dst i).2.2.source) := by
  have hheader := CountHeader.agrees_readFrom hs
  unfold readOntoFrom readCountFrom
  generalize hfirst : CountHeader.readFrom i.source = first at hheader ⊢
  obtain ⟨result, s⟩ := first
  cases hread : CountHeader.read i.source.left with
  | error e =>
    rw [hread] at hheader
    obtain ⟨e', he⟩ := hheader
    cases he
    simp only [readOnto, hread]
    exact ⟨e', rfl⟩
  | ok header =>
    rw [hread] at hheader
    obtain ⟨hgot, hle, hleft, hsteady⟩ := hheader
    cases hgot
    obtain ⟨_ | count, size⟩ := header
    · obtain rfl := CountHeader.size_of_null hfirst
      simp only [readOnto, hread]
      exact ⟨rfl, hle, hleft, hsteady⟩
    · simp only
      by_cases hroom : dst.length < count
      · simp only [readOnto, hread, if_pos hroom]
        exact ⟨_, rfl⟩
      · change s.left = i.source.left.drop size at hleft
        have hlen' : s.left.length ≤ maxCapacity := by
          rw [hleft, List.length_drop]
          omega
        have hfill := c.agrees_fill (dst.take count) (i := ⟨s, i.staging⟩) hsteady hstaging
          (Nat.le_trans · hlen')
        rw [List.length_take, Nat.min_eq_left (Nat.le_of_not_lt hroom)] at hfill
        simp only [hleft] at hfill
        rw [toOption_readOnto_of_length hlen hread hle (Nat.le_of_not_lt hroom)]
        simp only [if_neg hroom]
        generalize c.codec.readOnto (dst.take count) ⟨s, i.staging⟩ = run at hfill ⊢
        obtain ⟨result, i', front⟩ := run
        cases helements : c.elementsIn? (count * c.elementSize) (i.source.left.drop size) with
        | none =>
          rw [helements] at hfill
          obtain ⟨e, herror⟩ := hfill
          cases result with
          | error e' => exact ⟨_, rfl⟩
          | ok body => cases herror
        | some vs =>
          rw [helements] at hfill
          have hfill := hfill.of_drop hle (fun a => size + a.1) fun _ _ => rfl
          obtain ⟨hgot, hall, hrest, hsteady'⟩ := hfill
          cases result with
          | error e => cases hgot
          | ok body =>
            cases hgot
            exact ⟨rfl, hall, hrest, hsteady'⟩

end Collection

/-! ### Where a stream was found to end -/

/-- The number of bytes that an error counts which tells that a stream has ended. -/
def ValueError.endCount? : ValueError → Option Nat
  | truncatedStream _ _ consumed => some consumed
  | _ => none

/-- If the stream was found to end, then behind `total` bytes. Both counts are words. -/
def EndsAt (total : Nat) (got : Except ValueError α) : Prop :=
  ∀ e n, got = .error e → e.endCount? = some n → saturate n = saturate total

theorem saturate_saturate (n : Nat) : saturate (saturate n) = saturate n := by
  unfold saturate
  omega

namespace EndsAt

variable {total : Nat} {got : Except ValueError α}

theorem map (h : EndsAt total got) (f : α → β) : EndsAt total (got.map f) := by
  cases got with
  | error e =>
    intro e' n he hn
    cases he
    exact h e n rfl hn
  | ok a => exact fun _ _ he => nomatch he

theorem of_ok (a : α) : EndsAt total (.ok a) := fun _ _ he => nomatch he

theorem of_silent {e : ValueError} (h : e.endCount? = none) : EndsAt total (.error e : Except ValueError α) := by
  intro e' n he hn
  cases he
  rw [h] at hn
  cases hn

theorem count_after {e : ValueError} (h : EndsAt total (.error e : Except ValueError α)) {before n : Nat}
    (hn : (e.after before).endCount? = some n) : n = saturate (before + total) := by
  cases e
  case truncatedStream expected actual consumed =>
    have hcount : saturate consumed = saturate total := h _ consumed rfl rfl
    cases hn
    unfold saturate at *
    omega
  all_goals cases hn

theorem after {e : ValueError} (h : EndsAt total (.error e : Except ValueError α)) (before : Nat) :
    EndsAt (before + total) (.error (e.after before) : Except ValueError β) := by
  intro e' n he hn
  cases he
  rw [h.count_after hn, saturate_saturate]

end EndsAt

/-- An encoding of elements that leaves it to the streams to tell that they ended. -/
def ElementCodec.Endless (e : ElementCodec α) : Prop := ∀ bs err, e.decode bs = .error err → err.endCount? = none

theorem ElementCodec.Silent.endless {e : ElementCodec α} (h : e.Silent) : e.Endless := by
  intro bs err herr
  have hsilent := h bs err herr
  cases err
  case truncatedStream => exact hsilent.elim
  all_goals rfl

/-- A consumer that fails only for what it was given, and not because a stream has ended. -/
def EndlessConsumer (consume : Span → Bytes → τ → Except ValueError Unit × τ) : Prop :=
  ∀ span bs t e, (consume span bs t).1 = .error e → e.endCount? = none

namespace Source

variable {s : Source} {consume : Span → Bytes → τ → Except ValueError Unit × τ}

theorem Steady.endsAt_takeExactly (hs : s.Steady) (want : Nat) : EndsAt s.left.length (s.takeExactly want).1 := by
  obtain ⟨hbytes, herror, -, -⟩ := hs.fill want
  unfold takeExactly
  simp only [herror, hbytes, List.length_take]
  split
  case isTrue hless =>
    intro e n he hn
    cases he
    cases hn
    rw [Nat.min_eq_right (by omega)]
  case isFalse => exact .of_ok _

/-- A span that fails tells the end of the stream, and behind one that does not there is the rest of it. -/
theorem Steady.endsAt_takeSpan (hconsume : EndlessConsumer consume) {start stop : Nat} (hle : start ≤ stop)
    {st : Source × τ} (hs : st.1.Steady) :
    let got := takeSpan consume ⟨start, stop⟩ st
    EndsAt (start + st.1.left.length) got.1
      ∧ (got.1 = .ok () → got.2.1.Steady ∧ stop + got.2.1.left.length = start + st.1.left.length) := by
  have hspan : Span.length ⟨start, stop⟩ = stop - start := rfl
  have htake := hs.agrees_takeExactly (Span.length ⟨start, stop⟩)
  have hend := hs.endsAt_takeExactly (Span.length ⟨start, stop⟩)
  unfold takeSpan
  generalize st.1.takeExactly (Span.length ⟨start, stop⟩) = taken at htake hend ⊢
  obtain ⟨e | data, s⟩ := taken
  · exact ⟨hend.after start, fun hok => nomatch hok⟩
  · split at htake
    case isFalse hless =>
      obtain ⟨e, herror⟩ := htake
      cases herror
    case isTrue hall =>
      obtain ⟨-, -, hleft, hsteady⟩ := htake
      refine ⟨?_, fun _ => ⟨hsteady, ?_⟩⟩
      · intro e n he hn
        rw [hconsume _ _ _ e he] at hn
        cases hn
      · change s.left = st.1.left.drop (Span.length ⟨start, stop⟩) at hleft
        show stop + s.left.length = start + st.1.left.length
        rw [hleft, List.length_drop, hspan]
        omega

/-- Wherever the spans are cut, the end of the stream is behind all its bytes. -/
theorem Steady.endsAt_runSpans (hconsume : EndlessConsumer consume) {chunk : Nat} (hchunk : 0 < chunk) (total : Nat)
    {start : Nat} {st : Source × τ} (hs : st.1.Steady) :
    EndsAt (start + st.1.left.length) (runSpans chunk hchunk total (takeSpan consume) start st).1 := by
  fun_induction runSpans chunk hchunk total (takeSpan consume) start st with
  | case1 start st hless stop st' hact ih =>
    have hspan := hs.endsAt_takeSpan hconsume (Nat.le_add_right start (min chunk (total - start)))
    rw [show takeSpan consume ⟨start, start + min chunk (total - start)⟩ st = _ from hact] at hspan
    obtain ⟨hsteady, hrest⟩ := hspan.2 rfl
    rw [← hrest]
    exact ih hsteady
  | case2 start st hless stop e st' hact =>
    have hspan := hs.endsAt_takeSpan hconsume (Nat.le_add_right start (min chunk (total - start)))
    rw [show takeSpan consume ⟨start, start + min chunk (total - start)⟩ st = _ from hact] at hspan
    exact hspan.1
  | case3 start st hend => exact .of_ok ()

theorem Steady.endsAt_stage (hconsume : EndlessConsumer consume) {i : Inlet} (hs : i.source.Steady) (total unit : Nat)
    (t : τ) : EndsAt i.source.left.length (i.stage total unit consume t).1 := by
  unfold Inlet.stage
  by_cases hzero : total = 0
  · subst hzero
    exact .of_ok 0
  by_cases hroom : i.staging.Allocates total unit
  case neg =>
    rw [StagingLimits.run_of_not_allocates hroom]
    exact .of_silent rfl
  case pos =>
    have hchunk := i.staging.chunkLength_pos unit hzero
    have hrun : EndsAt (0 + i.source.left.length)
        (runSpans (i.staging.chunkLength total unit) hchunk total (takeSpan consume) 0 (i.source, t)).1 :=
      Steady.endsAt_runSpans hconsume hchunk total hs
    rw [Nat.zero_add] at hrun
    rw [StagingLimits.run_of_allocates hzero hroom]
    exact hrun.map fun _ => total

end Source

/-! ### Collections from streams that end -/

/-- A header that the stream does not hold is told apart from what it announces. -/
theorem CountHeader.endless_readFrom {s : Source} {e : ValueError} (he : (readFrom s).1 = .error e) :
    e.endCount? = none := by
  unfold readFrom at he
  generalize s.fill 1 = first at he
  obtain ⟨_ | ⟨flag, more⟩, _ | err, s'⟩ := first
  case cons.none =>
    simp only at he
    split at he
    case isTrue hnull => cases he
    case isFalse hnull =>
      generalize s'.fill (announcedWidth flag) = rest at he
      obtain ⟨raw, _ | err, s''⟩ := rest
      · simp only at he
        split at he
        · cases he
          rfl
        · unfold ofCountBytes at he
          simp only at he
          split at he
          · cases he
            rfl
          · cases he
      · cases he
        rfl
  all_goals
    cases he
    rfl

theorem CountHeader.left_of_readFrom {s s' : Source} (hs : s.Steady) {count? : Option Nat} {size : Nat}
    (hread : readFrom s = (.ok ⟨count?, size⟩, s')) : s'.Steady ∧ size + s'.left.length = s.left.length := by
  obtain ⟨hgot, hleft, hsteady⟩ := readFrom_of_steady hs
  rw [hread] at hgot hleft hsteady
  have hle : size ≤ s.left.length := local_read.length_le hgot.symm
  have hsize : size = announced s.left := size_of_read hgot.symm
  refine ⟨hsteady, ?_⟩
  rw [hleft, List.length_drop, ← hsize]
  omega

theorem Codec.endless_decodeSpan {c : Codec α} (h : c.element.Endless) : EndlessConsumer c.decodeSpan := by
  intro span bs f e he
  change (c.decodeOnto bs _).1 = .error e at he
  rw [decodeOnto_fst] at he
  cases hdecode : c.decodeAll bs with
  | ok vs =>
    rw [hdecode] at he
    cases he
  | error e' =>
    rw [hdecode] at he
    cases he
    obtain ⟨block, hblock⟩ := exists_of_decodeAll hdecode
    exact h block e hblock

theorem Codec.endless_bytesOf {c : Codec α} {count : Nat} {e : ValueError} (he : c.bytesOf count = .error e) :
    e.endCount? = none := by
  unfold bytesOf at he
  split at he
  · cases he
  · cases he
    rfl

theorem Codec.endsAt_readOnto {c : Codec α} (h : c.element.Endless) {i : Inlet} (hs : i.source.Steady)
    (dst : List α) : EndsAt i.source.left.length (c.readOnto dst i).1 := by
  cases c with
  | block p order =>
    show EndsAt _ (fillMemory p order dst i).1
    rw [congrArg Prod.fst (fillMemory_eq p order dst i)]
    exact (hs.endsAt_takeExactly _).map _
  | loop e =>
    show EndsAt _ ((loop e).unstageOnto dst i).1
    unfold unstageOnto
    cases hlength : (loop e).bytesOf dst.length with
    | error err => exact .of_silent (endless_bytesOf hlength)
    | ok total => exact Source.Steady.endsAt_stage (endless_decodeSpan h) hs _ _ _

namespace Collection

variable {c : Collection α}

theorem endless_decodeSpan (h : c.codec.element.Endless) : EndlessConsumer c.decodeSpan := by
  intro span bs done e he
  unfold decodeSpan at he
  split at he
  case h_1 => cases he
  case h_2 e' hdecode =>
    cases he
    obtain ⟨block, hblock⟩ := Codec.exists_of_decodeAll hdecode
    exact h block e hblock

theorem endsAt_readElementsFrom (h : c.codec.element.Endless) {i : Inlet} (hs : i.source.Steady) (count : Nat) :
    EndsAt i.source.left.length (c.readElementsFrom count i).1 := by
  unfold readElementsFrom
  cases hlength : c.bodyLength count with
  | error e => exact .of_silent (Codec.endless_bytesOf hlength)
  | ok total =>
    have hstage := Source.Steady.endsAt_stage (endless_decodeSpan h) hs total c.elementSize []
    simp only
    generalize i.stage _ _ _ _ = run at hstage ⊢
    obtain ⟨e | body, i', done⟩ := run
    · exact hstage.map fun _ => ([], 0)
    · exact .of_ok _

/-- What is behind a header on a steady stream, if the stream holds one. -/
inductive BehindCount (i : Inlet) : Except ValueError CountHeader × Inlet → Prop
  | lost {e : ValueError} {i' : Inlet} (silent : e.endCount? = none) : BehindCount i (.error e, i')
  | null {size : Nat} {i' : Inlet} : BehindCount i (.ok ⟨none, size⟩, i')
  | counted {count size : Nat} {i' : Inlet} (steady : i'.source.Steady)
      (length : size + i'.source.left.length = i.source.left.length) : BehindCount i (.ok ⟨some count, size⟩, i')

theorem behindCount {i : Inlet} (hs : i.source.Steady) : BehindCount i (readCountFrom i) := by
  unfold readCountFrom
  rcases hfirst : CountHeader.readFrom i.source with ⟨e | ⟨_ | count, size⟩, s⟩
  · exact .lost (CountHeader.endless_readFrom (congrArg Prod.fst hfirst))
  · exact .null
  · obtain ⟨hsteady, hlength⟩ := CountHeader.left_of_readFrom hs hfirst
    exact .counted hsteady hlength

/-- A read that finds the end of the stream counts all of its bytes, for it took them all. -/
theorem endsAt_readFrom (h : c.codec.element.Endless) {i : Inlet} (hs : i.source.Steady) {e : ValueError} {n : Nat}
    (he : (c.readFrom i).1 = .error e) (hn : e.endCount? = some n) : n = saturate i.source.left.length := by
  have hfirst := behindCount hs
  unfold readFrom at he
  generalize readCountFrom i = first at he hfirst
  cases hfirst with
  | lost silent =>
    cases he
    rw [silent] at hn
    cases hn
  | null => cases he
  | @counted count size i' steady length =>
    have hbody := endsAt_readElementsFrom h steady count
    simp only at he
    generalize c.readElementsFrom count i' = got at he hbody
    obtain ⟨e' | read, i''⟩ := got
    · cases he
      rw [← length]
      exact hbody.count_after hn
    · cases he

theorem endless_shortage (c : Collection α) (count size capacity : Nat) :
    (c.shortage count size capacity).endCount? = none := by
  unfold shortage
  cases hlength : c.bodyLength count with
  | error e => exact Codec.endless_bytesOf hlength
  | ok body => rfl

theorem endsAt_readOntoFrom (h : c.codec.element.Endless) {i : Inlet} (hs : i.source.Steady) {dst : List α}
    {e : ValueError} {n : Nat} (he : (c.readOntoFrom dst i).1 = .error e) (hn : e.endCount? = some n) :
    n = saturate i.source.left.length := by
  have hfirst := behindCount hs
  unfold readOntoFrom at he
  generalize readCountFrom i = first at he hfirst
  cases hfirst with
  | lost silent =>
    cases he
    rw [silent] at hn
    cases hn
  | null => cases he
  | @counted count size i' steady length =>
    have hbody := Codec.endsAt_readOnto h steady (dst.take count)
    simp only at he
    split at he
    case isTrue hless =>
      cases he
      rw [endless_shortage] at hn
      cases hn
    case isFalse hroom =>
      generalize c.codec.readOnto (dst.take count) i' = got at he hbody
      obtain ⟨e' | body, i'', front⟩ := got
      · cases he
        rw [← length]
        exact hbody.count_after hn
      · cases he

theorem withDestination_readIntoFrom (c : Collection α) (members : List α) (mode : FillMode) (i : Inlet) :
    withDestination (c.readIntoFrom members mode i) = (c.readFrom i).1.map fun read =>
      (⟨read.1.map List.length, read.2⟩, (read.1.map (mode.fill members)).getD members) := by
  show (settle mode members (c.readFrom i).1).1.map (·, (settle mode members (c.readFrom i).1).2) = _
  obtain ⟨e | ⟨_ | vs, consumed⟩, i'⟩ := c.readFrom i
  all_goals rfl

theorem readFrom_of_readIntoFrom {members : List α} {mode : FillMode} {i : Inlet} {e : ValueError}
    (he : (c.readIntoFrom members mode i).1 = .error e) : (c.readFrom i).1 = .error e := by
  change (settle mode members (c.readFrom i).1).1 = _ at he
  rw [settle_eq] at he
  cases hread : (c.readFrom i).1 with
  | error e' =>
    rw [hread] at he
    cases he
    rfl
  | ok read =>
    rw [hread] at he
    cases he

/-- Two reads that, if both find that their stream has ended, count the same bytes. -/
def SameEnd (got got' : Except ValueError α) : Prop :=
  ∀ e e' n n', got = .error e → got' = .error e' → e.endCount? = some n → e'.endCount? = some n' → n = n'

/-! ### Writes -/

/-- Two writes that tell the same, and after which their sinks have taken the same bytes. -/
def SameWrite (got got' : Except ValueError Nat × Outlet) : Prop :=
  got.1 = got'.1 ∧ got.2.sink.bytes = got'.2.sink.bytes

theorem sameWrite_of_delivers {s : Sink} (hs : s.Steady) {code : Bytes} {got got' : Except ValueError Nat × Outlet}
    (h : s.Delivers code (got.1, got.2.sink)) (h' : s.Delivers code (got'.1, got'.2.sink)) : SameWrite got got' := by
  obtain ⟨e | n, o⟩ := got
  · exact absurd hs h.takes.2
  · obtain ⟨e | n', o'⟩ := got'
    · exact absurd hs h'.takes.2
    · refine ⟨?_, h.takes.1.trans h'.takes.1.symm⟩
      rw [h.length n rfl, h'.length n' rfl]

/-- A list that is too long for any header is refused before anything is staged. -/
theorem writeCountTo_of_lt {count : Nat} (h : CountHeader.maxCount < count) (o : Outlet) :
    writeCountTo count o = (.error (.invalidLength count), o) := by
  rw [writeCountTo, CountHeader.writeTo, CountHeader.bytes_of_lt h]

section Writes

variable {s : Sink} {vs : List α} {first second : StagingLimits}

theorem sameWrite_writeAllTo (c : Collection α) (hs : s.Steady) (hlen : vs.length * c.elementSize ≤ maxCapacity)
    (hfirst : first.Allocatable) (hsecond : second.Allocatable) :
    SameWrite (c.writeAllTo vs ⟨s, first⟩) (c.writeAllTo vs ⟨s, second⟩) := by
  have hword := StagingLimits.le_maxWord hlen
  by_cases hcount : vs.length ≤ CountHeader.maxCount
  · exact sameWrite_of_delivers hs (c.delivers_writeAllTo (o := ⟨s, first⟩) hcount hword (hfirst.allocates hlen _))
      (c.delivers_writeAllTo (o := ⟨s, second⟩) hcount hword (hsecond.allocates hlen _))
  · simp only [writeAllTo, writeCountTo_of_lt (Nat.lt_of_not_le hcount)]
    exact ⟨rfl, rfl⟩

theorem sameWrite_writeDeclaredTo (c : Collection α) (hs : s.Steady) (hlen : vs.length * c.elementSize ≤ maxCapacity)
    (hfirst : first.Allocatable) (hsecond : second.Allocatable) :
    SameWrite (c.writeDeclaredTo vs.length vs ⟨s, first⟩) (c.writeDeclaredTo vs.length vs ⟨s, second⟩) := by
  have hword := StagingLimits.le_maxWord hlen
  by_cases hcount : vs.length ≤ CountHeader.maxCount
  · exact sameWrite_of_delivers hs
      (c.delivers_writeDeclaredTo (o := ⟨s, first⟩) hcount hword (hfirst.allocates hlen _))
      (c.delivers_writeDeclaredTo (o := ⟨s, second⟩) hcount hword (hsecond.allocates hlen _))
  · simp only [writeDeclaredTo, c.bodyLength_of_le hword, writeCountTo_of_lt (Nat.lt_of_not_le hcount)]
    exact ⟨rfl, rfl⟩

end Writes

/-! ### Limits are not seen -/

/-- **Staging limits make no difference**, if there can be buffers for both pools, to lists and streams that are no
longer than a buffer can be. -/
theorem same_under_limits (c : Collection α) {first second : StagingLimits} (hfirst : first.Allocatable)
    (hsecond : second.Allocatable) :
    (∀ (s : Sink) (vs : List α), s.Steady → vs.length * c.elementSize ≤ maxCapacity →
      SameWrite (c.writeAllTo vs ⟨s, first⟩) (c.writeAllTo vs ⟨s, second⟩)
        ∧ SameWrite (c.writeDeclaredTo vs.length vs ⟨s, first⟩) (c.writeDeclaredTo vs.length vs ⟨s, second⟩)
        ∧ SameWrite (c.writeUncountedTo vs ⟨s, first⟩) (c.writeUncountedTo vs ⟨s, second⟩))
      ∧ (∀ s : Source, s.Steady → s.left.length ≤ maxCapacity →
        (c.readFrom ⟨s, first⟩).1.toOption = (c.readFrom ⟨s, second⟩).1.toOption
          ∧ (∀ members mode, (withDestination (c.readIntoFrom members mode ⟨s, first⟩)).toOption
            = (withDestination (c.readIntoFrom members mode ⟨s, second⟩)).toOption)
          ∧ ∀ dst, (withDestination (c.readOntoFrom dst ⟨s, first⟩)).toOption
            = (withDestination (c.readOntoFrom dst ⟨s, second⟩)).toOption)
      ∧ (c.codec.element.Endless → ∀ s : Source, s.Steady →
        SameEnd (c.readFrom ⟨s, first⟩).1 (c.readFrom ⟨s, second⟩).1
          ∧ (∀ members mode,
            SameEnd (c.readIntoFrom members mode ⟨s, first⟩).1 (c.readIntoFrom members mode ⟨s, second⟩).1)
          ∧ ∀ dst, SameEnd (c.readOntoFrom dst ⟨s, first⟩).1 (c.readOntoFrom dst ⟨s, second⟩).1)
      ∧ (∀ (p : Plain α) (order : ByteOrder), (Codec.block p order).element.Endless)
      ∧ ∀ (t : Ty) (order : ByteOrder) (codec : Codec t.Value),
        t.codec? order = some codec → codec.element.Endless := by
  have hread : ∀ s : Source, s.Steady → s.left.length ≤ maxCapacity →
      (c.readFrom ⟨s, first⟩).1.toOption = (c.readFrom ⟨s, second⟩).1.toOption := by
    intro s hs hlen
    have hagrees := Format.agrees_readFrom_collection c (i := ⟨s, first⟩) hs hfirst hlen
    have hagrees' := Format.agrees_readFrom_collection c (i := ⟨s, second⟩) hs hsecond hlen
    exact hagrees.toOption.trans hagrees'.toOption.symm
  refine ⟨?_, ?_, ?_, fun p order => (ElementCodec.silent_plain p order).endless,
    fun t order codec hcodec => (Ty.silent_codec? hcodec).endless⟩
  · intro s vs hs hlen
    have hdeclared := c.sameWrite_writeDeclaredTo hs hlen hfirst hsecond
    exact ⟨c.sameWrite_writeAllTo hs hlen hfirst hsecond, hdeclared, hdeclared⟩
  · intro s hs hlen
    refine ⟨hread s hs hlen, fun members mode => ?_, fun dst => ?_⟩
    · rw [withDestination_readIntoFrom, withDestination_readIntoFrom, toOption_map, toOption_map, hread s hs hlen]
    · exact (agrees_readOntoFrom (i := ⟨s, first⟩) hs hfirst hlen dst).toOption.trans
        (agrees_readOntoFrom (i := ⟨s, second⟩) hs hsecond hlen dst).toOption.symm
  · intro hendless s hs
    refine ⟨?_, fun members mode => ?_, fun dst => ?_⟩
    · intro e e' n n' he he' hn hn'
      rw [endsAt_readFrom hendless hs he hn, endsAt_readFrom hendless hs he' hn']
    · intro e e' n n' he he' hn hn'
      rw [endsAt_readFrom hendless hs (readFrom_of_readIntoFrom he) hn,
        endsAt_readFrom hendless hs (readFrom_of_readIntoFrom he') hn']
    · intro e e' n n' he he' hn hn'
      rw [endsAt_readOntoFrom hendless hs he hn, endsAt_readOntoFrom hendless hs he' hn']

/-- Words through a buffer for one of them and through the usual ones, a byte or two at a time, from a stream that ends
early. -/
theorem same_under_limits_of_small_buffer :
    let c : Collection (BitVec 16) := ⟨.block (.word 2) .big, by decide⟩
    let small : StagingLimits := { poolThreshold := 0, maxBufferSize := 3 }
    let usual : StagingLimits := {}
    let s : Sink := { plan := [.fail .interrupted, .give 1, .give 2] }
    let cut : Source := ⟨[1, 3, 0, 7, 0], [.give 1, .fail .interrupted]⟩
    SameWrite (c.writeAllTo [7, 8, 9] ⟨s, small⟩) (c.writeAllTo [7, 8, 9] ⟨s, usual⟩)
      ∧ (c.readFrom ⟨cut, small⟩).1.toOption = (c.readFrom ⟨cut, usual⟩).1.toOption
      ∧ (c.readFrom ⟨cut, small⟩).1 = .error (.truncatedStream 2 1 5)
      ∧ (c.readFrom ⟨cut, usual⟩).1 = .error (.truncatedStream 6 3 5)
      ∧ SameEnd (c.readFrom ⟨cut, small⟩).1 (c.readFrom ⟨cut, usual⟩).1 := by
  intro c small usual s cut
  have hs : s.Steady := ⟨by decide, by simp [s]⟩
  have hcut : cut.Steady := ⟨by simp [Source.Giving, cut], by simp [cut]⟩
  have hsmall : small.Allocatable := by decide
  have husual : usual.Allocatable := by decide
  obtain ⟨hwrite, hread, hend, hplain, -⟩ := same_under_limits c hsmall husual
  exact ⟨(hwrite s _ hs (by decide)).1, (hread cut hcut (by decide)).1, by decide +kernel, by decide +kernel,
    (hend (hplain (.word 2) .big) cut hcut).1⟩

/-- A pool without room for a buffer ends the process with the first byte. Under the usual limits that byte is written.
-/
theorem limits_make_a_difference :
    let c : Collection Bool := ⟨.loop (Ty.boolCodec .little), by decide⟩
    let huge : StagingLimits := { poolThreshold := 0xffffffffffffffff, maxBufferSize := 0, poolCapacity := 0 }
    let s : Sink := {}
    huge.fillsPool = true ∧ s.Steady ∧ (c.writeDeclaredTo 1 [true] ⟨s, huge⟩).1 = .error .capacityOverflow
      ∧ (c.writeDeclaredTo 1 [true] ⟨s, {}⟩).1 = .ok 3
      ∧ ¬ SameWrite (c.writeDeclaredTo 1 [true] ⟨s, huge⟩) (c.writeDeclaredTo 1 [true] ⟨s, {}⟩) := by
  intro c huge s
  have hs : s.Steady := ⟨by decide, by simp [s]⟩
  have hhuge : (c.writeDeclaredTo 1 [true] ⟨s, huge⟩).1 = .error .capacityOverflow := by cbv
  have husual : (c.writeDeclaredTo 1 [true] ⟨s, {}⟩).1 = .ok 3 := by cbv
  refine ⟨rfl, hs, hhuge, husual, fun hsame => ?_⟩
  cases hhuge.symm.trans (hsame.1.trans husual)

end Collection

end MessageWire
