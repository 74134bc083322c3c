import Mathlib
import MessageWire.Proofs.Value.Limits
import MessageWire.Proofs.Value.Slots
/-!
# Blocks and loops

A list of plain elements is copied as one block of memory, which is turned as a whole if it has to be. The same elements
could go one by one, each copied into its slot and turned there. Nothing tells the two apart (`Codec.block_eq_loop`):
not the bytes, not the elements, not the counts, and not whether a stream had enough bytes. Elements in memory take up
no more bytes than a buffer can have. But the loop needs a buffer where a block that is in wire order needs none
(`Codec.block_ne_loop`).

Bytes that are decoded as plain elements never fail, so the only failure of a read from a steady stream is that it ends.
Wherever the transfer is cut, it has then taken all that the stream had (`Source.Exhausted`).
-/

namespace MessageWire

variable {α β τ : Type}

/-! ### Transfers that find the end -/

namespace Source

/-- A read that has found the end of a source: it has taken all its bytes, and tells that they were `total`. Counts are
told as words. -/
structure Exhausted (total : Nat) (got : Except ValueError α × Source) : Prop where
  error : ∃ expected actual consumed, got.1 = .error (.truncatedStream expected actual consumed)
    ∧ saturate consumed = saturate total
  left : got.2.left = []

variable {s : Source} {total : Nat}

theorem Exhausted.map {got : Except ValueError α × Source} (h : Exhausted total got) (f : α → β) :
    Exhausted total (got.1.map f, got.2) := by
  obtain ⟨⟨expected, actual, consumed, herror, hconsumed⟩, hleft⟩ := h
  refine ⟨⟨expected, actual, consumed, ?_, hconsumed⟩, hleft⟩
  rw [herror]
  rfl

theorem Exhausted.eq_after {e : ValueError} (h : Exhausted total ((.error e : Except ValueError α), s))
    (before : Nat) :
    ∃ expected actual, e.after before = .truncatedStream expected actual (saturate (before + total)) := by
  obtain ⟨⟨expected, actual, consumed, herror, hconsumed⟩, -⟩ := h
  cases herror
  refine ⟨expected, actual, congrArg (ValueError.truncatedStream expected actual) ?_⟩
  unfold saturate at *
  omega

theorem Exhausted.after {e : ValueError} (h : Exhausted total ((.error e : Except ValueError α), s)) (before : Nat) :
    Exhausted (before + total) ((.error (e.after before) : Except ValueError β), s) := by
  obtain ⟨expected, actual, hafter⟩ := h.eq_after before
  exact ⟨⟨expected, actual, _, congrArg Except.error hafter, saturate_saturate _⟩, h.left⟩

theorem Steady.exhausted_takeExactly (hs : s.Steady) {want : Nat} (hless : s.left.length < want) :
    Exhausted s.left.length (s.takeExactly want) := by
  obtain ⟨hbytes, herror, hleft, -⟩ := hs.fill want
  unfold takeExactly
  rw [List.take_of_length_le (Nat.le_of_lt hless)] at hbytes
  rw [List.drop_of_length_le (Nat.le_of_lt hless)] at hleft
  simp only [herror, hbytes, if_pos hless]
  exact ⟨⟨want, _, _, rfl, rfl⟩, hleft⟩

def TakesAll (consume : Span → Bytes → τ → Except ValueError Unit × τ) : Prop :=
  ∀ span bs t, (consume span bs t).1 = .ok ()

variable {consume : Span → Bytes → τ → Except ValueError Unit × τ}

theorem Steady.exhausted_runSpans (hconsume : TakesAll consume) {chunk : Nat} (hchunk : 0 < chunk) {start : Nat}
    (hs : s.Steady) (hless : start + s.left.length < total) (t : τ) :
    let run := runSpans chunk hchunk total (takeSpan consume) start (s, t)
    Exhausted (start + s.left.length) (run.1, run.2.1) := by
  -- Along the bytes that are left: the next span is one that the source has, or it finds the end.
  induction hlen : s.left.length using Nat.strongRecOn generalizing start s t with
  | _ n ih =>
    subst hlen
    rw [runSpans, if_pos (by omega)]
    obtain ⟨len, hlen⟩ : ∃ len, min chunk (total - start) = len := ⟨_, rfl⟩
    have hspan : Span.length ⟨start, start + len⟩ = len := Nat.add_sub_cancel_left _ _
    simp only [hlen, takeSpan, hspan]
    by_cases hend : s.left.length < len
    · have htake := hs.exhausted_takeExactly hend
      generalize s.takeExactly len = taken at htake ⊢
      obtain ⟨_ | data, s'⟩ := taken
      · exact htake.after start
      · obtain ⟨⟨_, _, _, herror, -⟩, -⟩ := htake
        cases herror
    · have htake := hs.agrees_takeExactly len
      rw [if_pos (Nat.le_of_not_lt hend)] at htake
      obtain ⟨hdata, hall, hleft, hsteady⟩ := htake
      generalize s.takeExactly len = taken at hdata hleft hsteady ⊢
      obtain ⟨_, s'⟩ := taken
      obtain rfl := hdata
      have hrest : s'.left.length = s.left.length - len := by
        rw [show s'.left = s.left.drop len from hleft, List.length_drop]
      have hok := hconsume ⟨start, start + len⟩ (s.left.take len) t
      simp only
      generalize consume ⟨start, start + len⟩ (s.left.take len) t = next at hok ⊢
      obtain ⟨_, t'⟩ := next
      obtain rfl := hok
      have hlater := ih s'.left.length (by omega) hsteady (show start + len + s'.left.length < total by omega) t' rfl
      rwa [show start + len + s'.left.length = start + s.left.length by omega] at hlater

theorem Steady.exhausted_stage (hconsume : TakesAll consume) {i : Inlet} (hs : i.source.Steady) {unit : Nat}
    (hroom : i.staging.Allocates total unit) (t : τ) (hless : i.source.left.length < total) :
    let got := i.stage total unit consume t
    Exhausted i.source.left.length (got.1, got.2.1.source) := by
  have hzero : total ≠ 0 := by omega
  have hchunk := i.staging.chunkLength_pos unit hzero
  have hrun := hs.exhausted_runSpans hconsume hchunk (show 0 + i.source.left.length < total by omega) t
  rw [Nat.zero_add] at hrun
  unfold Inlet.stage
  rw [StagingLimits.run_of_allocates hzero hroom]
  exact hrun.map fun _ => total

end Source

theorem Sink.Delivers.of_steady {s : Sink} {code : Bytes} {got : Except ValueError Nat × Sink}
    (h : s.Delivers code got) (hs : s.Steady) : got.1 = .ok code.length ∧ got.2.bytes = s.bytes ++ code := by
  obtain ⟨e | n, s'⟩ := got
  · exact absurd hs h.takes.2
  · exact ⟨congrArg Except.ok (h.length n rfl), h.takes.1⟩

/-! ### Decoding that never fails -/

def Codec.Total (c : Codec α) : Prop := ∀ bs, ∃ vs, c.decodeAll bs = .ok vs

theorem Codec.total_block (p : Plain α) (order : ByteOrder) : (block p order).Total := fun _ => ⟨_, rfl⟩

theorem Codec.takesAll_decodeSpan {c : Codec α} (h : c.Total) : Source.TakesAll c.decodeSpan := by
  intro span bs f
  obtain ⟨vs, hvs⟩ := h bs
  show (c.decodeOnto bs _).1 = .ok ()
  rw [decodeOnto_fst, hvs]
  rfl

theorem Collection.takesAll_decodeSpan {c : Collection α} (h : c.codec.Total) : Source.TakesAll c.decodeSpan := by
  intro span bs done
  obtain ⟨vs, hvs⟩ := h bs
  simp only [decodeSpan, hvs]

/-! ### Plain elements, as a block and one by one -/

namespace Codec

section Plain

variable {p : Plain α} {order : ByteOrder}

theorem decodeAll_loop_plain (hpos : 0 < p.size) (bs : Bytes) :
    (loop (.plain p order)).decodeAll bs = .ok (p.ofImages (order.turn p.size bs)) := by
  have hblock := decodeAll_eq (block p order) hpos bs
  exact (decodeAll_eq (loop (.plain p order)) hpos bs).trans hblock.symm

theorem total_loop_plain (hpos : 0 < p.size) : (loop (.plain p order)).Total :=
  fun bs => ⟨_, decodeAll_loop_plain hpos bs⟩

theorem decodeOnto_loop_plain (hpos : 0 < p.size) (bs : Bytes) (dst : List α) :
    (loop (.plain p order)).decodeOnto bs dst = (block p order).decodeOnto bs dst :=
  decodeOnto_of_ok (decodeAll_loop_plain hpos bs) dst

/-- Elements in their slots, and the same elements as a block of memory. -/
theorem copyOnto_eq {vs : List α} {dst : Bytes} (hlen : dst.length = vs.length * p.size) :
    p.copyOnto order vs dst = (ElementCodec.plain p order).encodeOnto vs dst := by
  rw [Plain.copyOnto_of_length hlen, encodeAll_eq]
  exact (ElementCodec.encodeOnto_of_length hlen).symm

theorem loadOnto_eq (hpos : 0 < p.size) {src : Bytes} {dst : List α} (hlen : src.length = dst.length * p.size) :
    (.ok (), p.loadOnto order src dst) = (ElementCodec.plain p order).decodeOnto src dst := by
  have hblock : (block p order).decodeSlots src dst = (block p order).decodeOnto src dst :=
    decodeSlots_of_length hpos hlen
  have hloop : (loop (.plain p order)).decodeSlots src dst = (loop (.plain p order)).decodeOnto src dst :=
    decodeSlots_of_length hpos hlen
  rw [decodeOnto_loop_plain hpos, ← hblock] at hloop
  exact hloop.symm

theorem loadBehind_eq (hpos : 0 < p.size) {src : Bytes} (hwhole : p.size ∣ src.length) (out : List α) :
    (.ok (), p.loadBehind order src out) = (loop (.plain p order)).decodeBehind src out := by
  have hloop := decodeBehind_of_ok (c := loop (.plain p order)) hpos (decodeAll_loop_plain hpos src) out
  rw [hloop, Plain.loadBehind_of_dvd hwhole]

end Plain

/-! ### Streams -/

/-- Two ways to fill a destination that succeed together and take the same bytes. Where they fail, both have found the
end of the stream. -/
structure SameFill (fast slow : Except ValueError Nat × Inlet × List α) : Prop where
  ok : ∀ n, fast.1 = .ok n ↔ slow.1 = .ok n
  elements : ∀ n, fast.1 = .ok n → fast.2.2 = slow.2.2
  left : fast.2.1.source.left = slow.2.1.source.left
  ended : ∀ e, fast.1 = .error e → ∃ expected actual consumed expected' actual' consumed',
    e = .truncatedStream expected actual consumed
      ∧ slow.1 = .error (.truncatedStream expected' actual' consumed') ∧ saturate consumed = saturate consumed'

variable {p : Plain α} {order : ByteOrder}

theorem sameFill_of_enough {fast slow : Except ValueError Nat × Inlet × List α} {size : Nat} {left : Bytes}
    {vs : List α} (h : Agrees Prod.fst left (some (size, vs)) (fast.1.map (·, fast.2.2), fast.2.1.source))
    (h' : Agrees Prod.fst left (some (size, vs)) (slow.1.map (·, slow.2.2), slow.2.1.source)) :
    SameFill fast slow := by
  obtain ⟨fast, i, dst⟩ := fast
  obtain ⟨slow, i', dst'⟩ := slow
  obtain ⟨hgot, -, hleft, -⟩ := h
  obtain ⟨hgot', -, hleft', -⟩ := h'
  cases fast with
  | error e => cases hgot
  | ok n =>
    cases slow with
    | error e => cases hgot'
    | ok n' =>
      cases hgot
      cases hgot'
      exact ⟨fun _ => Iff.rfl, fun _ _ => rfl, hleft.trans hleft'.symm, fun e he => nomatch he⟩

theorem sameFill_of_exhausted {fast slow : Except ValueError Nat × Inlet × List α} {total : Nat}
    (h : Source.Exhausted total (fast.1, fast.2.1.source)) (h' : Source.Exhausted total (slow.1, slow.2.1.source)) :
    SameFill fast slow := by
  obtain ⟨⟨expected, actual, consumed, herror, hconsumed⟩, hleft⟩ := h
  obtain ⟨⟨expected', actual', consumed', herror', hconsumed'⟩, hleft'⟩ := h'
  obtain ⟨fast, i, dst⟩ := fast
  obtain ⟨slow, i', dst'⟩ := slow
  cases herror
  cases herror'
  refine ⟨fun n => ⟨fun hn => (nomatch hn), fun hn => (nomatch hn)⟩, fun n hn => (nomatch hn),
    hleft.trans hleft'.symm, fun e he => ?_⟩
  cases he
  exact ⟨expected, actual, consumed, expected', actual', consumed', rfl, rfl, hconsumed.trans hconsumed'.symm⟩

theorem sameFill_readOnto (hpos : 0 < p.size) {s : Source} (hs : s.Steady) {dst : List α}
    (hlen : dst.length * p.size ≤ maxCapacity) (first : StagingLimits) {second : StagingLimits}
    (hsecond : second.Allocatable) :
    SameFill ((block p order).readOnto dst ⟨s, first⟩)
      ((loop (.plain p order)).unstageOnto dst ⟨s, second⟩) := by
  by_cases hless : s.left.length < dst.length * p.size
  · have hfast := (hs.exhausted_takeExactly hless).map fun _ => dst.length * p.size
    rw [← fillMemory_eq p order dst ⟨s, first⟩] at hfast
    have htakes : Source.TakesAll (loop (.plain p order)).decodeSpan := takesAll_decodeSpan (total_loop_plain hpos)
    have hslow := Source.Steady.exhausted_stage htakes (i := ⟨s, second⟩) hs
      (hsecond.allocates hlen p.size) ⟨[], dst⟩
      hless
    refine sameFill_of_exhausted hfast ?_
    unfold unstageOnto
    rw [bytesOf_of_le (c := loop (.plain p order)) (StagingLimits.le_maxWord hlen)]
    exact hslow
  · have hle : dst.length * p.size ≤ s.left.length := Nat.le_of_not_lt hless
    let block : Collection α := ⟨.block p order, hpos⟩
    let loop : Collection α := ⟨.loop (.plain p order), hpos⟩
    obtain ⟨vs, hvs⟩ :
        ∃ vs, p.ofImages (order.turn p.size (s.left.take (dst.length * p.size))) = vs := ⟨_, rfl⟩
    have hblock : block.elementsIn? (dst.length * block.elementSize) s.left = some vs :=
      Collection.elementsIn?_eq_some_iff.mpr ⟨hle, congrArg Except.ok hvs⟩
    have hloop : loop.elementsIn? (dst.length * loop.elementSize) s.left = some vs :=
      Collection.elementsIn?_eq_some_iff.mpr ⟨hle, (decodeAll_loop_plain hpos _).trans (congrArg Except.ok hvs)⟩
    have hfast := Collection.agrees_fillMemory order hpos (i := ⟨s, first⟩) hs dst
    have hslow := loop.agrees_unstageOnto dst (i := ⟨s, second⟩) hs hsecond fun _ => hlen
    change Agrees _ _ ((block.elementsIn? (dst.length * block.elementSize) s.left).map _) _ at hfast
    rw [hblock] at hfast
    rw [hloop] at hslow
    exact sameFill_of_enough hfast hslow

/-! ### Nothing tells them apart -/

/-- **A block of plain elements is what a loop over them gives**: the same bytes, and the same elements, or both find
the end. -/
theorem block_eq_loop (p : Plain α) (hpos : 0 < p.size) (order : ByteOrder) :
    let e := ElementCodec.plain p order
    (∀ (vs : List α) (dst : Bytes), dst.length = vs.length * p.size →
        p.copyOnto order vs dst = e.encodeOnto vs dst ∧ p.copyOnto order vs dst = (block p order).encodeAll vs)
      ∧ (∀ (src : Bytes) (dst : List α), src.length = dst.length * p.size →
        (.ok (), p.loadOnto order src dst) = e.decodeOnto src dst)
      ∧ (∀ (src : Bytes) (out : List α), p.size ∣ src.length →
        (.ok (), p.loadBehind order src out) = (loop e).decodeBehind src out)
      ∧ (∀ (s : Sink) (vs : List α) (first second : StagingLimits), s.Steady → first.Allocatable →
        second.Allocatable → vs.length * p.size ≤ maxCapacity →
          let fast := (block p order).writeAll vs ⟨s, first⟩
          Collection.SameWrite fast ((loop e).stageAll vs ⟨s, second⟩)
            ∧ fast.1 = .ok (vs.length * p.size) ∧ fast.2.sink.bytes = s.bytes ++ (block p order).encodeAll vs)
      ∧ ∀ (s : Source) (dst : List α) (first second : StagingLimits), s.Steady → second.Allocatable →
        dst.length * p.size ≤ maxCapacity →
          SameFill ((block p order).readOnto dst ⟨s, first⟩) ((loop e).unstageOnto dst ⟨s, second⟩) := by
  intro e
  refine ⟨fun vs dst hlen => ⟨copyOnto_eq hlen, Plain.copyOnto_of_length hlen⟩, fun src dst => loadOnto_eq hpos,
    fun src out hwhole => loadBehind_eq hpos hwhole out, ?_, fun s dst first second hs hsecond hlen =>
      sameFill_readOnto hpos hs hlen first hsecond⟩
  intro s vs first second hs hfirst hsecond hlen
  have hword := StagingLimits.le_maxWord hlen
  have hfast := (block p order).delivers_writeAll (o := ⟨s, first⟩) hpos hword (hfirst.allocates hlen p.size)
  have hslow := (loop e).delivers_stageAll (o := ⟨s, second⟩) hpos hword (hsecond.allocates hlen p.size)
  rw [show (loop e).encodeAll vs = (block p order).encodeAll vs from ((block p order).encodeAll_eq vs).symm] at hslow
  obtain ⟨hresult, hbytes⟩ := hfast.of_steady hs
  rw [length_encodeAll] at hresult
  exact ⟨Collection.sameWrite_of_delivers hs hfast hslow, hresult, hbytes⟩

/-- Two words in big-endian memory, through a buffer that holds one of them, and from a stream that ends in the second
word. -/
theorem block_eq_loop_of_words :
    let p := Plain.word 2
    let e := ElementCodec.plain p .big
    let small : StagingLimits := { poolThreshold := 0, maxBufferSize := 3 }
    let s : Sink := { plan := [.fail .interrupted, .give 1] }
    let cut : Source := ⟨[0, 7, 0], [.give 1, .fail .interrupted]⟩
    e.encodeOnto [7, 8] [9, 9, 9, 9] = [0, 7, 0, 8]
      ∧ p.copyOnto .big [7, 8] [9, 9, 9, 9] = [0, 7, 0, 8]
      ∧ e.decodeOnto [0, 7, 0, 8] [1, 1] = (.ok (), [7, 8])
      ∧ p.loadOnto .big [0, 7, 0, 8] [1, 1] = [7, 8]
      ∧ (loop e).decodeBehind [0, 7, 0, 8] [1] = (.ok (), [1, 7, 8])
      ∧ ((loop e).stageAll [7, 8] ⟨s, small⟩).1 = .ok 4
      ∧ ((loop e).stageAll [7, 8] ⟨s, small⟩).2.sink.bytes = [0, 7, 0, 8]
      ∧ SameFill ((block p .big).readOnto [1, 1] ⟨cut, small⟩)
        ((loop e).unstageOnto [1, 1] ⟨cut, small⟩) := by
  intro p e small s cut
  have hs : s.Steady := ⟨by decide, by simp [s]⟩
  have hcut : cut.Steady := ⟨by simp [Source.Giving, cut], by simp [cut]⟩
  have hsmall : small.Allocatable := by decide
  obtain ⟨hencode, hdecode, happend, hwrite, hread⟩ := block_eq_loop p (by decide) .big
  obtain ⟨hslots, -⟩ := hencode [7, 8] [9, 9, 9, 9] (by decide)
  have honto := hdecode [0, 7, 0, 8] [1, 1] (by decide)
  have hbehind := happend [0, 7, 0, 8] [1] (by decide)
  obtain ⟨⟨hresult, hsame⟩, hlen, hbytes⟩ := hwrite s [7, 8] small small hs hsmall hsmall (by decide)
  have hcopy : p.copyOnto .big [7, 8] [9, 9, 9, 9] = [0, 7, 0, 8] := by decide +kernel
  have hload : p.loadOnto .big [0, 7, 0, 8] [1, 1] = [7, 8] := by decide +kernel
  refine ⟨hslots.symm.trans hcopy, hcopy, ?_, hload, ?_, hresult.symm.trans hlen, ?_,
    hread cut [1, 1] small small hcut hsmall (by decide)⟩
  · rw [← hload]
    exact honto.symm
  · rw [← hbehind]
    decide +kernel
  · rw [← hsame, hbytes]
    decide +kernel

/-- One word in little-endian memory. The block goes out as it lies, the loop asks for a buffer that there cannot be. -/
theorem block_ne_loop :
    let p := Plain.word 2
    let huge : StagingLimits := { poolThreshold := 0xffffffffffffffff, maxBufferSize := 0, poolCapacity := 0 }
    let s : Sink := {}
    let source : Source := ⟨[7, 0], []⟩
    huge.fillsPool = true ∧ s.Steady ∧ source.Steady
      ∧ ((block p .little).writeAll [7] ⟨s, huge⟩).1 = .ok 2
      ∧ ((loop (.plain p .little)).stageAll [7] ⟨s, huge⟩).1 = .error .capacityOverflow
      ∧ ((block p .little).readOnto [1] ⟨source, huge⟩).1 = .ok 2
      ∧ ((loop (.plain p .little)).unstageOnto [1] ⟨source, huge⟩).1 = .error .capacityOverflow := by
  intro p huge s source
  have hs : s.Steady := ⟨by decide, by simp [s]⟩
  have hsource : source.Steady := ⟨by simp [Source.Giving, source], by simp [source]⟩
  exact ⟨rfl, hs, hsource, by cbv, by cbv, by decide +kernel, by decide +kernel⟩

end Codec

end MessageWire
