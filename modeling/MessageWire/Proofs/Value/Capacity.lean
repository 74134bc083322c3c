import MessageWire.Proofs.Value.Limits
import MessageWire.Proofs.Value.Slots
/-!
# Destinations of fixed size

A destination of fixed size has room for some elements and is not to be touched behind the last one that comes. A
collection is read onto it exactly if it can be read into a new list that is no longer than it
(`Collection.toOption_readOnto_eq`). No read changes a member at or behind the count of the header, whatever fails and
whatever a stream does (`Collection.keepsBehind_readOnto`, `Collection.keepsBehind_readOntoFrom`), because each span of
a transfer stores as many elements as it takes from those ahead (`Inlet.stage_keeps`).

`Collection.fill` is the read of a buffer slot by slot. A destination that is too small is told the size of the whole
encoding, unless its length is no word, and a stream has to go through a buffer that there can be
(`Collection.fixed_destination_fails`).
-/

namespace MessageWire

variable {α τ : Type}

/-! ### What a transfer keeps -/

section Keeping

variable {unit : Nat} {consume : Span → Bytes → τ → Except ValueError Unit × τ} {ahead : Nat → τ → Prop}

/-- What is true as long as so many elements are ahead stays true over the spans, if the consumer sees to it, also where
it fails. -/
theorem runSpans_keeps (hpos : 0 < unit)
    (hkeep : ∀ span bs count later t, span.length = count * unit → bs.length = span.length →
      ahead (count + later) t → ahead later (consume span bs t).2)
    {chunk : Nat} (hchunk : 0 < chunk) (hcut : unit ∣ chunk) {total start slots : Nat}
    (htotal : total = start + slots * unit) {s : Source} {t : τ} (ht : ahead slots t) :
    ∃ later, ahead later (runSpans chunk hchunk total (Source.takeSpan consume) start (s, t)).2.2 := by
  -- Along the elements ahead, of which the next span takes some.
  induction slots using Nat.strongRecOn generalizing start s t with
  | _ slots ih =>
    rw [runSpans]
    split
    case isFalse => exact ⟨slots, ht⟩
    case isTrue hmore =>
      obtain ⟨count, later, hcount, rfl, hlen, htotal'⟩ := exists_next_span hpos hchunk hcut htotal hmore
      have hspan : Span.length ⟨start, start + count * unit⟩ = count * unit := Nat.add_sub_cancel_left _ _
      simp only [hlen, Source.takeSpan]
      cases htake : s.takeExactly (Span.length ⟨start, start + count * unit⟩) with
      | mk taken s' =>
        cases taken with
        | error e => exact ⟨count + later, ht⟩
        | ok data =>
          have hnext := hkeep _ data count later t hspan (Source.left_of_takeExactly htake).1 ht
          simp only
          generalize consume ⟨start, start + count * unit⟩ data t = got at hnext ⊢
          obtain ⟨_ | _, t'⟩ := got
          · exact ⟨later, hnext⟩
          · exact ih later (by omega) htotal' hnext

theorem Inlet.stage_keeps (hpos : 0 < unit)
    (hkeep : ∀ span bs count later t, span.length = count * unit → bs.length = span.length →
      ahead (count + later) t → ahead later (consume span bs t).2)
    (i : Inlet) {slots : Nat} {t : τ} (ht : ahead slots t) :
    ∃ later, ahead later (i.stage (slots * unit) unit consume t).2.2 := by
  unfold stage
  by_cases hzero : slots * unit = 0
  · rw [hzero]
    exact ⟨slots, ht⟩
  by_cases hroom : i.staging.Allocates (slots * unit) unit
  case neg =>
    rw [StagingLimits.run_of_not_allocates hroom]
    exact ⟨slots, ht⟩
  case pos =>
    have hchunk := i.staging.chunkLength_pos unit hzero
    have hcut := i.staging.dvd_chunkLength hpos (Nat.dvd_mul_left unit slots)
    rw [StagingLimits.run_of_allocates hzero hroom]
    exact runSpans_keeps hpos hkeep hchunk hcut (Nat.zero_add (slots * unit)).symm ht

end Keeping

namespace Codec

variable {c : Codec α}

/-- What is done and what is ahead make up a destination of so many slots. -/
def Filling.Covers (slots ahead : Nat) (f : Filling α) : Prop :=
  f.ahead.length = ahead ∧ f.done.length + ahead = slots

theorem covers_decodeSpan (hpos : 0 < c.size) {slots : Nat} (span : Span) (bs : Bytes) (count later : Nat)
    (f : Filling α) (hspan : span.length = count * c.size) (hlen : bs.length = span.length)
    (hcovers : f.Covers slots (count + later)) : (c.decodeSpan span bs f).2.Covers slots later := by
  obtain ⟨hahead, hall⟩ := hcovers
  have hcount : span.length / c.size = count := by
    rw [hspan]
    exact Nat.mul_div_cancel _ hpos
  have hfront : (f.ahead.take count).length = count := by rw [List.length_take, Nat.min_eq_left (by omega)]
  have honto : (c.decodeOnto bs (f.ahead.take count)).2.length = count := by
    rw [length_decodeOnto hpos (by rw [hlen, hspan, hfront]), hfront]
  simp only [decodeSpan, hcount, Filling.Covers, List.length_append, List.length_reverse, List.length_drop, honto]
  omega

theorem length_fillMemory {p : Plain α} (hpos : 0 < p.size) (order : ByteOrder) (dst : List α) (i : Inlet) :
    (fillMemory p order dst i).2.2.length = dst.length := by
  obtain ⟨-, hle⟩ := i.source.fill_left (dst.length * p.size)
  simp only [fillMemory]
  generalize i.source.fill (dst.length * p.size) = got at hle ⊢
  obtain ⟨bytes, error?, s⟩ := got
  -- What came is in the memory, which has the length it had.
  have hmemory : (overwrite (p.images dst) 0 bytes).length = dst.length * p.size := by
    rw [length_overwrite (by simpa using hle), Plain.length_images]
  have htouched : (p.ofImages (overwrite (p.images dst) 0 bytes)).length = dst.length := by
    rw [Plain.length_ofImages, hmemory, Nat.mul_div_cancel _ hpos]
  cases error? with
  | some e => exact htouched
  | none =>
    simp only
    split
    case isTrue => exact htouched
    case isFalse hall =>
      have hbytes : bytes.length = dst.length * p.size := by
        change bytes.length ≤ _ at hle
        omega
      rw [Plain.length_ofImages, length_turn, hbytes, Nat.mul_div_cancel _ hpos]

/-- A destination keeps its length, whether it is filled as memory or span by span. -/
theorem length_readOnto (hpos : 0 < c.size) (dst : List α) (i : Inlet) :
    (c.readOnto dst i).2.2.length = dst.length := by
  cases c with
  | block p order => exact length_fillMemory hpos order dst i
  | loop e =>
    simp only [readOnto, unstageOnto]
    by_cases hword : dst.length * (loop e).size ≤ maxWord
    case neg => rw [bytesOf_of_lt (Nat.lt_of_not_le hword)]
    have hstart : Filling.Covers dst.length dst.length ⟨[], dst⟩ := ⟨rfl, Nat.zero_add _⟩
    have hkept := i.stage_keeps hpos (covers_decodeSpan hpos) hstart
    rw [bytesOf_of_le hword]
    simp only
    generalize i.stage _ _ _ _ = got at hkept ⊢
    obtain ⟨result, i', f⟩ := got
    obtain ⟨later, hahead, hall⟩ := hkept
    rw [List.length_append, List.length_reverse, hahead]
    exact hall

end Codec

/-! ### What a read into a destination keeps -/

namespace Collection

variable {c : Collection α} {dst : List α} {src : Bytes} {count size n : Nat} {vs : List α}

/-- What a destination keeps: its length and the members at and behind the count of the header, or everything if it has
no room. -/
def KeepsBehind (header : Except ValueError CountHeader) (dst dst' : List α) : Prop :=
  match header with
  | .ok ⟨some count, _⟩ =>
    dst'.length = dst.length ∧ dst'.drop count = dst.drop count ∧ (dst.length < count → dst' = dst)
  | _ => dst' = dst

theorem keepsBehind_self (header : Except ValueError CountHeader) (dst : List α) : KeepsBehind header dst dst := by
  obtain _ | ⟨_ | count, size⟩ := header
  · rfl
  · rfl
  · exact ⟨rfl, rfl, fun _ => rfl⟩

theorem keepsBehind_front {front : List α} (hroom : count ≤ dst.length) (hlen : front.length = count) :
    KeepsBehind (.ok ⟨some count, size⟩) dst (front ++ dst.drop count) := by
  refine ⟨?_, ?_, fun hless => absurd hroom (Nat.not_le.mpr hless)⟩
  · rw [List.length_append, List.length_drop, hlen]
    omega
  · rw [← hlen, List.drop_left]

theorem shortage_of_le (h : count * c.elementSize ≤ maxWord) (capacity : Nat) :
    c.shortage count size capacity = .destinationTooSmall count capacity (saturate (size + count * c.elementSize)) := by
  rw [shortage, c.bodyLength_of_le h]

theorem shortage_of_maxWord_lt (h : maxWord < count * c.elementSize) (capacity : Nat) :
    c.shortage count size capacity = .invalidLength count := by
  rw [shortage, c.bodyLength_of_lt h]

theorem readOnto_of_lt (hread : CountHeader.read src = .ok ⟨some count, size⟩) (hless : dst.length < count) :
    c.readOnto src dst = (.error (c.shortage count size dst.length), dst) := by
  unfold readOnto
  simp only [hread, if_pos hless]

theorem readOntoFrom_of_lt {i : Inlet} {s : Source}
    (hread : CountHeader.readFrom i.source = (.ok ⟨some count, size⟩, s)) (hless : dst.length < count) :
    c.readOntoFrom dst i = (.error (c.shortage count size dst.length), dst, ⟨s, i.staging⟩) := by
  unfold readOntoFrom readCountFrom
  simp only [hread, if_pos hless]

/-- What a buffer leaves in a destination that has room: its elements at the front, or some of them, and behind them
what was there. -/
theorem exists_readOnto (hread : CountHeader.read src = .ok ⟨some count, size⟩) (hroom : count ≤ dst.length) :
    ∃ front, front.length = count ∧ (c.readOnto src dst).2 = front ++ dst.drop count := by
  unfold readOnto
  simp only [hread, if_neg (Nat.not_lt.mpr hroom)]
  have hfront : (dst.take count).length = count := by rw [List.length_take, Nat.min_eq_left hroom]
  cases hbody : c.body ⟨some count, size⟩ src with
  | error e => exact ⟨dst.take count, hfront, (List.take_append_drop _ _).symm⟩
  | ok found =>
    obtain ⟨bytes, stop⟩ := found
    have hlen : bytes.length = (dst.take count).length * c.codec.size := by
      rw [hfront]
      exact length_of_body hbody
    have hwhole := c.codec.decodeOnto_append c.size_pos hlen (dst.drop count)
    rw [List.take_append_drop] at hwhole
    refine ⟨(c.codec.decodeOnto bytes (dst.take count)).2, ?_, ?_⟩
    · rw [Codec.length_decodeOnto c.size_pos hlen, hfront]
    · simp only [hwhole]
      obtain ⟨_ | _, front⟩ := c.codec.decodeOnto bytes (dst.take count)
      · rfl
      · rfl

theorem keepsBehind_readOnto (c : Collection α) (src : Bytes) (dst : List α) :
    KeepsBehind (CountHeader.read src) dst (c.readOnto src dst).2 := by
  rcases hread : CountHeader.read src with e | ⟨_ | count, size⟩
  · unfold readOnto
    simp only [hread]
    exact keepsBehind_self _ dst
  · unfold readOnto
    simp only [hread]
    exact keepsBehind_self _ dst
  · by_cases hroom : count ≤ dst.length
    · obtain ⟨front, hlen, hfront⟩ := c.exists_readOnto hread hroom
      rw [hfront]
      exact keepsBehind_front hroom hlen
    · rw [readOnto_of_lt hread (Nat.not_le.mp hroom)]
      exact keepsBehind_self _ dst

theorem keepsBehind_readOntoFrom (c : Collection α) (dst : List α) (i : Inlet) :
    KeepsBehind (CountHeader.readFrom i.source).1 dst (c.readOntoFrom dst i).2.1 := by
  rcases hread : CountHeader.readFrom i.source with ⟨e | ⟨_ | count, size⟩, s⟩
  · unfold readOntoFrom readCountFrom
    simp only [hread]
    exact keepsBehind_self _ dst
  · unfold readOntoFrom readCountFrom
    simp only [hread]
    exact keepsBehind_self _ dst
  · by_cases hroom : count ≤ dst.length
    · have hlen := c.codec.length_readOnto c.size_pos (dst.take count) ⟨s, i.staging⟩
      rw [List.length_take, Nat.min_eq_left hroom] at hlen
      unfold readOntoFrom readCountFrom
      simp only [hread, if_neg (Nat.not_lt.mpr hroom)]
      generalize c.codec.readOnto (dst.take count) ⟨s, i.staging⟩ = got at hlen ⊢
      obtain ⟨_ | _, i', front⟩ := got
      · exact keepsBehind_front hroom hlen
      · exact keepsBehind_front hroom hlen
    · rw [readOntoFrom_of_lt hread (Nat.not_le.mp hroom)]
      exact keepsBehind_self _ dst

/-! ### Slot by slot -/

/-- Reads a collection slot by slot into the front of a destination. -/
def fill (c : Collection α) (src : Bytes) (dst : List α) : Except ValueError ReadOutcome × List α :=
  match CountHeader.read src with
  | .error e => (.error e, dst)
  | .ok ⟨none, _⟩ => (.ok .null, dst)
  | .ok ⟨some count, size⟩ =>
    if dst.length < count then (.error (c.shortage count size dst.length), dst)
    else
      match c.body ⟨some count, size⟩ src with
      | .error e => (.error e, dst)
      | .ok (bytes, stop) =>
        match c.codec.decodeSlots bytes (dst.take count) with
        | (.error e, front) => (.error e, front ++ dst.drop count)
        | (.ok (), front) => (.ok ⟨some count, stop⟩, front ++ dst.drop count)

theorem fill_eq (c : Collection α) (src : Bytes) (dst : List α) : c.fill src dst = c.readOnto src dst := by
  rcases hread : CountHeader.read src with e | ⟨_ | count, size⟩
  · simp only [fill, readOnto, hread]
  · simp only [fill, readOnto, hread]
  · by_cases hless : dst.length < count
    · rw [readOnto_of_lt hread hless, fill]
      simp only [hread, if_pos hless]
    · simp only [fill, readOnto, hread, if_neg hless]
      cases hbody : c.body ⟨some count, size⟩ src with
      | error e => rfl
      | ok found =>
        obtain ⟨bytes, stop⟩ := found
        have hlen : bytes.length = (dst.take count).length * c.codec.size := by
          rw [List.length_take, Nat.min_eq_left (Nat.le_of_not_lt hless)]
          exact length_of_body hbody
        have hwhole := c.codec.decodeOnto_append c.size_pos hlen (dst.drop count)
        rw [List.take_append_drop] at hwhole
        simp only [hwhole, Codec.decodeSlots_of_length c.size_pos hlen]
        obtain ⟨_ | _, front⟩ := c.codec.decodeOnto bytes (dst.take count)
        · rfl
        · rfl

/-! ### New lists and destinations -/

/-- What becomes of a destination into which a new list is put, if it has room. -/
def landing (dst : List α) : Option (List α) × Nat → Option (ReadOutcome × List α)
  | (none, consumed) => some (⟨none, consumed⟩, dst)
  | (some vs, consumed) =>
    if vs.length ≤ dst.length then some (⟨some vs.length, consumed⟩, vs ++ dst.drop vs.length) else none

/-- **A destination is read onto exactly if it has room for what a new list gets.** -/
theorem toOption_readOnto_eq (c : Collection α) (src : Bytes) (dst : List α) :
    ((c.readOnto src dst).1.map (·, (c.readOnto src dst).2)).toOption = (c.read src).toOption.bind (landing dst) := by
  rw [Format.read_collection_eq]
  unfold readCounted
  rcases hread : CountHeader.read src with e | ⟨_ | count, size⟩
  · simp only [readOnto, hread]
    rfl
  · obtain rfl := CountHeader.size_of_read_null hread
    simp only [readOnto, hread]
    rfl
  · have hle := CountHeader.local_read.length_le hread
    by_cases hword : count * c.elementSize ≤ maxWord
    case neg =>
      rw [readOnto_of_maxWord_lt (Nat.lt_of_not_le hword) hread]
      simp only [Format.elementsBody_of_lt (Nat.lt_of_not_le hword)]
      rfl
    simp only [Format.toOption_elementsBody hword hle]
    by_cases hless : dst.length < count
    · rw [readOnto_of_lt hread hless]
      cases helements : c.elementsIn? (count * c.elementSize) (src.drop size) with
      | none => rfl
      | some vs =>
        obtain rfl := length_of_elementsIn? helements
        exact (if_neg (Nat.not_le.mpr hless)).symm
    · rw [toOption_readOnto hword hread hle (Nat.le_of_not_lt hless)]
      cases helements : c.elementsIn? (count * c.elementSize) (src.drop size) with
      | none => rfl
      | some vs =>
        obtain rfl := length_of_elementsIn? helements
        exact (if_pos (Nat.le_of_not_lt hless)).symm

theorem toOption_map_eq_some_iff {ε β γ : Type} (got : Except ε β × γ) {a : β} {b : γ} :
    (got.1.map (·, got.2)).toOption = some (a, b) ↔ got = (.ok a, b) := by
  obtain ⟨_ | a', b'⟩ := got
  · simp [Except.map, Except.toOption]
  · simp [Except.map, Except.toOption]

theorem readOnto_eq_ok_iff {outcome : ReadOutcome} {dst' : List α} :
    c.readOnto src dst = (.ok outcome, dst') ↔
      ∃ read, c.read src = .ok read ∧ landing dst read = some (outcome, dst') := by
  rw [← toOption_map_eq_some_iff, toOption_readOnto_eq, Option.bind_eq_some_iff]
  refine exists_congr fun read => and_congr_left fun _ => ?_
  cases c.read src with
  | error e => simp [Except.toOption]
  | ok read' => simp [Except.toOption]

theorem ok_readOnto_iff {outcome : ReadOutcome} :
    (c.readOnto src dst).1 = .ok outcome ↔
      ∃ read dst', c.read src = .ok read ∧ landing dst read = some (outcome, dst') := by
  refine ⟨fun hok => ?_, ?_⟩
  · obtain ⟨read, hread, hland⟩ := readOnto_eq_ok_iff.mp (Prod.ext hok rfl)
    exact ⟨read, _, hread, hland⟩
  · rintro ⟨read, dst', hread, hland⟩
    exact congrArg Prod.fst (readOnto_eq_ok_iff.mpr ⟨read, hread, hland⟩)

theorem elements_readOnto_iff {k : Nat} :
    (c.readOnto src dst).1 = .ok ⟨some k, n⟩ ↔
      k ≤ dst.length ∧ ∃ vs, vs.length = k ∧ c.read src = .ok (some vs, n) := by
  rw [ok_readOnto_iff]
  constructor
  · rintro ⟨⟨_ | vs, n'⟩, dst', hread, hland⟩
    · cases hland
    · obtain ⟨hroom, hgot⟩ := Option.ite_none_right_eq_some.mp hland
      cases hgot
      exact ⟨hroom, vs, rfl, hread⟩
  · rintro ⟨hroom, vs, rfl, hread⟩
    exact ⟨_, _, hread, if_pos hroom⟩

theorem null_readOnto_iff : (c.readOnto src dst).1 = .ok ⟨none, n⟩ ↔ c.read src = .ok (none, n) := by
  rw [ok_readOnto_iff]
  constructor
  · rintro ⟨⟨_ | vs, n'⟩, dst', hread, hland⟩
    · cases hland
      exact hread
    · obtain ⟨-, hgot⟩ := Option.ite_none_right_eq_some.mp hland
      cases hgot
  · intro hread
    exact ⟨_, _, hread, rfl⟩

/-- The size of the whole encoding is what a new list tells, if it can be read. -/
theorem shortage_of_read (hread : CountHeader.read src = .ok ⟨some count, size⟩)
    (hvs : c.read src = .ok (some vs, n))
    (hlen : src.length ≤ maxWord) :
    c.shortage count size dst.length = .destinationTooSmall vs.length dst.length n := by
  have hle : n ≤ src.length := (Format.local_read_collection c).length_le hvs
  rw [Format.read_collection_eq] at hvs
  unfold readCounted at hvs
  simp only [hread] at hvs
  obtain ⟨bytes, vs', hbehind, hdecode, hsame⟩ := Format.of_elementsBody_eq_ok hvs
  cases hsame
  have hcount : vs.length = count := length_of_decodeAll (Format.of_behind_eq_ok hbehind).1 hdecode
  have hsize : size + count * c.elementSize ≤ maxWord := Nat.le_trans hle hlen
  rw [shortage_of_le (by omega), saturate_of_le hsize, hcount]

theorem left_of_readFrom_header {s s' : Source} (hread : CountHeader.readFrom s = (.ok ⟨some count, size⟩, s')) :
    ∃ header, header.length = size ∧ s.left = header ++ s'.left := by
  have haccounts := CountHeader.accounts_readFrom s
  rw [hread] at haccounts
  obtain ⟨header, hleft, hsize⟩ := haccounts.of_ok
  rw [Nat.zero_add] at hsize
  exact ⟨header, hsize.symm, hleft⟩

/-- From a steady stream a destination gets what it gets from a buffer with the same bytes. -/
theorem readOntoFrom_eq_ok_iff {i : Inlet} (hs : i.source.Steady) (hstaging : i.staging.Allocatable)
    (hlen : i.source.left.length ≤ maxCapacity) {outcome : ReadOutcome} {dst' : List α} :
    (c.readOntoFrom dst i).1 = .ok outcome ∧ (c.readOntoFrom dst i).2.1 = dst' ↔
      c.readOnto i.source.left dst = (.ok outcome, dst') := by
  have hagrees := (agrees_readOntoFrom (c := c) hs hstaging hlen dst).toOption
  rw [← toOption_map_eq_some_iff, ← hagrees]
  rw [withDestination, toOption_map_eq_some_iff ((c.readOntoFrom dst i).1, (c.readOntoFrom dst i).2.1), Prod.mk.injEq]

/-! ### Destinations keep to their size -/

/-- **A destination of fixed size gets what fits and keeps the rest**, if it has room for what a new list gets, and
keeps everything if not. -/
theorem fixed_destination_exact (c : Collection α) (dst : List α) :
    (∀ src, let got := c.readOnto src dst
        c.fill src dst = got
          ∧ (∀ k n, got.1 = .ok ⟨some k, n⟩ ↔
            k ≤ dst.length ∧ ∃ vs, vs.length = k ∧ c.read src = .ok (some vs, n))
          ∧ (∀ n, got.1 = .ok ⟨none, n⟩ ↔ c.read src = .ok (none, n))
          ∧ (∀ vs n, c.read src = .ok (some vs, n) → vs.length ≤ dst.length →
            got.2 = vs ++ dst.drop vs.length)
          ∧ KeepsBehind (CountHeader.read src) dst got.2)
      ∧ (∀ count size, dst.length < count →
        let short := c.shortage count size dst.length
        (count * c.elementSize ≤ maxWord →
            short = .destinationTooSmall count dst.length (saturate (size + count * c.elementSize)))
          ∧ (maxWord < count * c.elementSize → short = .invalidLength count)
          ∧ (∀ src, CountHeader.read src = .ok ⟨some count, size⟩ →
            c.readOnto src dst = (.error short, dst)
              ∧ ∀ vs n, c.read src = .ok (some vs, n) → src.length ≤ maxWord →
                short = .destinationTooSmall vs.length dst.length n)
          ∧ ∀ (i : Inlet) s, CountHeader.readFrom i.source = (.ok ⟨some count, size⟩, s) →
            c.readOntoFrom dst i = (.error short, dst, ⟨s, i.staging⟩)
              ∧ ∃ header, header.length = size ∧ i.source.left = header ++ s.left)
      ∧ (∀ i : Inlet, KeepsBehind (CountHeader.readFrom i.source).1 dst (c.readOntoFrom dst i).2.1)
      ∧ ∀ i : Inlet, i.source.Steady →
        (CountHeader.readFrom i.source).1.toOption = (CountHeader.read i.source.left).toOption
          ∧ (i.staging.Allocatable → i.source.left.length ≤ maxCapacity → ∀ outcome dst',
            (c.readOntoFrom dst i).1 = .ok outcome ∧ (c.readOntoFrom dst i).2.1 = dst' ↔
              c.readOnto i.source.left dst = (.ok outcome, dst')) := by
  refine ⟨fun src => ⟨c.fill_eq src dst, fun k n => elements_readOnto_iff, fun n => null_readOnto_iff, ?_,
      c.keepsBehind_readOnto src dst⟩, ?_, c.keepsBehind_readOntoFrom dst, ?_⟩
  · intro vs n hread hroom
    exact congrArg Prod.snd (readOnto_eq_ok_iff.mpr ⟨_, hread, if_pos hroom⟩)
  · intro count size hless
    refine ⟨fun hword => shortage_of_le hword _, fun hword => shortage_of_maxWord_lt hword _, fun src hread => ?_,
      fun i s hread => ?_⟩
    · exact ⟨readOnto_of_lt hread hless, fun vs n => shortage_of_read hread⟩
    · exact ⟨readOntoFrom_of_lt hread hless, left_of_readFrom_header hread⟩
  · intro i hs
    exact ⟨(CountHeader.agrees_readFrom hs).toOption, fun hstaging hlen outcome dst' =>
      readOntoFrom_eq_ok_iff hs hstaging hlen⟩

/-- Two characters onto three slots and onto one, from a stream that gives a few bytes at a time. For the one only the
header is taken. -/
theorem fixed_destination_exact_of_two_characters :
    let c : Collection Char := ⟨.loop (Ty.charCodec .big), by decide⟩
    let src : Bytes := [1, 2, 0, 0, 0, 0x61, 0, 0, 0, 0x62, 7]
    let small : StagingLimits := { poolThreshold := 0, maxBufferSize := 5 }
    let i : Inlet := ⟨⟨src, [.give 1, .fail .interrupted, .give 3, .give 2]⟩, small⟩
    c.read src = .ok (some ['a', 'b'], 10)
      ∧ c.readOnto src ['x', 'y', 'z'] = (.ok ⟨some 2, 10⟩, ['a', 'b', 'z'])
      ∧ (c.readOntoFrom ['x', 'y', 'z'] i).1 = .ok ⟨some 2, 10⟩
      ∧ (c.readOntoFrom ['x', 'y', 'z'] i).2.1 = ['a', 'b', 'z']
      ∧ c.readOnto src ['x'] = (.error (.destinationTooSmall 2 1 10), ['x'])
      ∧ (c.readOntoFrom ['x'] i).1 = .error (.destinationTooSmall 2 1 10)
      ∧ (c.readOntoFrom ['x'] i).2.2.source.left = src.drop 2 := by
  intro c src small i
  have hi : i.source.Steady := ⟨by simp [Source.Giving, i], by simp [i]⟩
  have hheader : CountHeader.read src = .ok ⟨some 2, 2⟩ := by decide
  have hheader' : CountHeader.readFrom i.source
    = (.ok ⟨some 2, 2⟩, ⟨src.drop 2, [.give 2]⟩) := by decide +kernel
  have hread : c.read src = .ok (some ['a', 'b'], 10) := by decide +kernel
  obtain ⟨hroom, -, -, hsteady⟩ := fixed_destination_exact c ['x', 'y', 'z']
  obtain ⟨-, hshort, -, -⟩ := fixed_destination_exact c ['x']
  obtain ⟨-, helements, -, hfront, -⟩ := hroom src
  have hgot : c.readOnto src ['x', 'y', 'z'] = (.ok ⟨some 2, 10⟩, ['a', 'b', 'z']) :=
    Prod.ext ((helements 2 10).mpr ⟨by decide, _, rfl, hread⟩) (hfront _ 10 hread (by decide))
  obtain ⟨hok, hdst⟩ := ((hsteady i hi).2 (by decide) (by decide) _ _).mpr hgot
  obtain ⟨-, -, hbuffer, hstream⟩ := hshort 2 2 (by decide)
  obtain ⟨hless, hsize⟩ := hbuffer src hheader
  obtain ⟨hless', -⟩ := hstream i _ hheader'
  rw [hsize _ 10 hread (by decide)] at hless hless'
  exact ⟨hread, hgot, hok, hdst, hless, congrArg Prod.fst hless', congrArg (·.2.2.source.left) hless'⟩

/-- Elements of sixteen gigabytes, too many of them for a word, and a truth value through a buffer that there cannot be.
-/
theorem fixed_destination_fails :
    let wide : Collection (BitVec (8 * 0x400000000)) := ⟨.block (.word 0x400000000) .little, by decide⟩
    let c : Collection Bool := ⟨.loop (Ty.boolCodec .little), by decide⟩
    let huge : StagingLimits := { poolThreshold := 0xffffffffffffffff, maxBufferSize := 0, poolCapacity := 0 }
    let i : Inlet := ⟨⟨[1, 1, 1], []⟩, huge⟩
    wide.readOnto [3, 0xff, 0xff, 0xff, 0x7f] [] = (.error (.invalidLength 2147483647), [])
      ∧ huge.fillsPool = true ∧ i.source.Steady
      ∧ c.readOnto i.source.left [false] = (.ok ⟨some 1, 3⟩, [true])
      ∧ (c.readOntoFrom [false] i).1 = .error .capacityOverflow := by
  intro wide c huge i
  have hi : i.source.Steady := ⟨by simp [Source.Giving, i], by simp [i]⟩
  have hheader : CountHeader.read [3, 0xff, 0xff, 0xff, 0x7f] = .ok ⟨some 2147483647, 5⟩ := by decide
  have hword : maxWord < 2147483647 * wide.elementSize := by
    show maxWord < 2147483647 * 0x400000000
    decide
  refine ⟨?_, rfl, hi, by decide +kernel, by decide +kernel⟩
  rw [readOnto_of_lt hheader (by decide), shortage_of_maxWord_lt hword]

end Collection

end MessageWire
