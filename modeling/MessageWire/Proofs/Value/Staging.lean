import MessageWire.Proofs.Value.Elements
import MessageWire.Proofs.Value.Header
import MessageWire.Value.Collection
/-!
# Elements through staging

Staging cuts a transfer between two elements, whatever its limits are (`StagingLimits.dvd_chunkLength`). So the
elements that come chunk by chunk are those that the bytes of the whole transfer decode to
(`Collection.agrees_readElementsFrom`). What a transfer is told to keep besides makes no difference to the stream
(`Outlet.stage_map`, `Inlet.stage_map`).
-/

namespace MessageWire

variable {α τ : Type}

theorem dvd_min {d m n : Nat} (hm : d ∣ m) (hn : d ∣ n) : d ∣ min m n := by
  rw [Nat.min_def]
  split <;> assumption

theorem dvd_max {d m n : Nat} (hm : d ∣ m) (hn : d ∣ n) : d ∣ max m n := by
  rw [Nat.max_def]
  split <;> assumption

namespace StagingLimits

variable (limits : StagingLimits) (total : Nat) {unit : Nat}

theorem chunkLength_eq_or_dvd (hpos : 0 < unit) :
    limits.chunkLength total unit = total ∨ unit ∣ limits.chunkLength total unit := by
  unfold chunkLength
  split
  · exact .inl rfl
  · exact .inl rfl
  · have hunit : max unit 1 = unit := by omega
    have hfull : unit ∣ limits.maxBufferSize - limits.maxBufferSize % unit := Nat.dvd_sub_mod _
    simp only [hunit]
    rcases Nat.le_total total (max (limits.maxBufferSize - limits.maxBufferSize % unit) unit) with hle | hle
    · exact .inl (Nat.min_eq_right hle)
    · rw [Nat.min_eq_left hle]
      exact .inr (dvd_max hfull (Nat.dvd_refl unit))

theorem dvd_chunkLength {total : Nat} (hpos : 0 < unit) (hwhole : unit ∣ total) :
    unit ∣ limits.chunkLength total unit := by
  rcases limits.chunkLength_eq_or_dvd total hpos with heq | hdvd
  · rwa [heq]
  · exact hdvd

theorem chunkLength_le (unit : Nat) : limits.chunkLength total unit ≤ total := by
  unfold chunkLength
  split
  · exact Nat.le_refl _
  · exact Nat.le_refl _
  · exact Nat.min_le_right _ _

/-! ### Room for the buffers -/

theorem le_maxWord {n : Nat} (h : n ≤ maxCapacity) : n ≤ maxWord := Nat.le_trans h (by decide)

variable {limits total}

/-- With room for the pool, every transfer that is no longer than a buffer can be has room for its buffer. -/
theorem Allocatable.allocates (h : limits.Allocatable) (hle : total ≤ maxCapacity) (unit : Nat) :
    limits.Allocates total unit := by
  refine .inr ?_
  unfold bufferLength
  split
  · exact h
  · exact Nat.le_trans (limits.chunkLength_le total unit) hle

/-! ### Transfers -/

variable {σ : Type} {act : Span → σ → Except ValueError Unit × σ} {s : σ}

theorem run_of_not_allocates (h : ¬ limits.Allocates total unit) :
    limits.run total unit act s = (.error .capacityOverflow, s) := by
  obtain ⟨hzero, hlong⟩ := not_or.mp h
  rw [run, dif_neg hzero, if_pos (Nat.lt_of_not_le hlong)]

theorem run_of_allocates (hzero : total ≠ 0) (h : limits.Allocates total unit) :
    limits.run total unit act s =
      let spans := runSpans (limits.chunkLength total unit) (limits.chunkLength_pos unit hzero) total act 0 s
      (spans.1.map fun _ => total, spans.2) := by
  have hroom : ¬ limits.bufferLength total unit > maxCapacity := Nat.not_lt_of_le (h.resolve_left hzero)
  rw [run, dif_neg hzero, if_neg hroom]
  obtain ⟨_ | _, s'⟩ := runSpans _ _ _ act 0 s
  · rfl
  · rfl

end StagingLimits

theorem Outlet.stage_of_not_allocates {o : Outlet} {total unit : Nat} (h : ¬ o.staging.Allocates total unit)
    (produce : Span → τ → Except ValueError Bytes × τ) (t : τ) :
    o.stage total unit produce t = (.error .capacityOverflow, o, t) := by
  rw [stage, StagingLimits.run_of_not_allocates h]

theorem Inlet.stage_of_not_allocates {i : Inlet} {total unit : Nat} (h : ¬ i.staging.Allocates total unit)
    (consume : Span → Bytes → τ → Except ValueError Unit × τ) (t : τ) :
    i.stage total unit consume t = (.error .capacityOverflow, i, t) := by
  rw [stage, StagingLimits.run_of_not_allocates h]

/-! ### Transfers that are told of other states -/

section Told

variable {ρ σ : Type}

/-- A transfer goes as another one does if each of its spans does, from the states that `f` makes of those of the
other. -/
theorem runSpans_map {act : Span → ρ → Except ValueError Unit × ρ}
    {act' : Span → σ → Except ValueError Unit × σ}
    {f : ρ → σ} (h : ∀ span s, act' span (f s) = ((act span s).1, f (act span s).2)) {chunk : Nat}
    (hchunk : 0 < chunk) (total start : Nat) (s : ρ) :
    runSpans chunk hchunk total act' start (f s)
      = ((runSpans chunk hchunk total act start s).1, f (runSpans chunk hchunk total act start s).2) := by
  fun_induction runSpans chunk hchunk total act start s with
  | case1 start s hmore stop s' hact ih =>
    rw [runSpans, if_pos hmore]
    simp only [h, show act ⟨start, start + min chunk (total - start)⟩ s = _ from hact]
    exact ih
  | case2 start s hmore stop e s' hact =>
    rw [runSpans, if_pos hmore]
    simp only [h, show act ⟨start, start + min chunk (total - start)⟩ s = _ from hact]
  | case3 start s hend => rw [runSpans, if_neg hend]

theorem StagingLimits.run_map {act : Span → ρ → Except ValueError Unit × ρ}
    {act' : Span → σ → Except ValueError Unit × σ} {f : ρ → σ}
    (h : ∀ span s, act' span (f s) = ((act span s).1, f (act span s).2)) (limits : StagingLimits) (total unit : Nat)
    (s : ρ) :
    limits.run total unit act' (f s) = ((limits.run total unit act s).1, f (limits.run total unit act s).2) := by
  by_cases hzero : total = 0
  · subst hzero
    rfl
  · by_cases hroom : limits.Allocates total unit
    · simp only [run_of_allocates hzero hroom, runSpans_map h]
    · simp only [run_of_not_allocates hroom]

theorem Outlet.stage_map {produce : Span → ρ → Except ValueError Bytes × ρ}
    {produce' : Span → σ → Except ValueError Bytes × σ} {f : ρ → σ}
    (h : ∀ span s, produce' span (f s) = ((produce span s).1, f (produce span s).2)) (o : Outlet) (total unit : Nat)
    (s : ρ) :
    let told := o.stage total unit produce s
    o.stage total unit produce' (f s) = (told.1, told.2.1, f told.2.2) := by
  have hspan : ∀ span (st : Sink × ρ),
      let told := Sink.putSpan produce span st
      Sink.putSpan produce' span (st.1, f st.2) = (told.1, told.2.1, f told.2.2) := by
    rintro span ⟨sink, s⟩
    simp only [Sink.putSpan, h]
    obtain ⟨_ | data, s'⟩ := produce span s
    · rfl
    · simp only
      obtain ⟨_ | _, sink'⟩ := sink.writeAll data
      · rfl
      · rfl
  have hrun := o.staging.run_map hspan total unit (o.sink, s)
  simp only [stage, hrun]

theorem Inlet.stage_map {consume : Span → Bytes → ρ → Except ValueError Unit × ρ}
    {consume' : Span → Bytes → σ → Except ValueError Unit × σ} {f : ρ → σ}
    (h : ∀ span data s, consume' span data (f s) = ((consume span data s).1, f (consume span data s).2)) (i : Inlet)
    (total unit : Nat) (s : ρ) :
    let told := i.stage total unit consume s
    i.stage total unit consume' (f s) = (told.1, told.2.1, f told.2.2) := by
  have hspan : ∀ span (st : Source × ρ),
      let told := Source.takeSpan consume span st
      Source.takeSpan consume' span (st.1, f st.2) = (told.1, told.2.1, f told.2.2) := by
    rintro span ⟨source, s⟩
    simp only [Source.takeSpan]
    obtain ⟨_ | data, source'⟩ := source.takeExactly span.length
    · rfl
    · simp only [h]
  have hrun := i.staging.run_map hspan total unit (i.source, s)
  simp only [stage, hrun]

end Told

/-! ### Elements in spans -/

/-- The next span of a transfer of whole elements: how many elements it has, and how many come after it. -/
theorem exists_next_span {unit chunk total start slots : Nat} (hpos : 0 < unit) (hchunk : 0 < chunk)
    (hcut : unit ∣ chunk) (htotal : total = start + slots * unit) (hmore : start < total) :
    ∃ count later, 0 < count ∧ slots = count + later ∧ min chunk (total - start) = count * unit
      ∧ total = start + count * unit + later * unit := by
  have hrest : total - start = slots * unit := by omega
  obtain ⟨count, hcount⟩ : unit ∣ min chunk (total - start) := dvd_min hcut (hrest ▸ Nat.dvd_mul_left _ _)
  rw [Nat.mul_comm] at hcount
  have hcount_pos : 0 < count := Nat.pos_of_ne_zero fun hzero => by
    rw [hzero, Nat.zero_mul] at hcount
    omega
  obtain ⟨later, rfl⟩ : ∃ later, slots = count + later := by
    apply Nat.exists_eq_add_of_le
    apply Nat.le_of_mul_le_mul_right _ hpos
    rw [← hrest, ← hcount]
    exact Nat.min_le_right _ _
  refine ⟨count, later, hcount_pos, rfl, hcount, ?_⟩
  rw [htotal, Nat.add_mul, Nat.add_assoc]

namespace Collection

variable {c : Collection α} {chunk total start : Nat} {s : Source}

theorem bodyLength_of_le {count : Nat} (h : count * c.elementSize ≤ maxWord) :
    c.bodyLength count = .ok (count * c.elementSize) := Codec.bytesOf_of_le h

theorem bodyLength_of_lt {count : Nat} (h : maxWord < count * c.elementSize) :
    c.bodyLength count = .error (.invalidLength count) := Codec.bytesOf_of_lt h

theorem eq_of_bodyLength {count length : Nat} (h : c.bodyLength count = .ok length) :
    length = count * c.elementSize := by
  by_cases hword : count * c.elementSize ≤ maxWord
  · rw [bodyLength_of_le hword] at h
    cases h
    rfl
  · rw [bodyLength_of_lt (Nat.lt_of_not_le hword)] at h
    cases h

/-- The elements in the first `want` bytes of a buffer. -/
def elementsIn? (c : Collection α) (want : Nat) (w : Bytes) : Option (List α) :=
  if want ≤ w.length then (c.codec.decodeAll (w.take want)).toOption else none

theorem elementsIn?_zero (w : Bytes) : c.elementsIn? 0 w = some [] := by
  have hblocks : blocks c.codec.size ([] : Bytes) = [] := blocks_of_lt c.size_pos
  rw [elementsIn?, if_pos (Nat.zero_le _), List.take_zero, Codec.decodeAll_eq c.codec c.size_pos, hblocks]
  rfl

/-- A transfer that is cut behind `n` bytes: the elements there come first, those of the rest after them. -/
theorem elementsIn?_cut {want n : Nat} {w : Bytes} (hwhole : c.elementSize ∣ n) (hle : n ≤ want)
    (hlen : n ≤ w.length) :
    c.elementsIn? want w =
      (c.codec.decodeAll (w.take n)).toOption.bind fun vs => (c.elementsIn? (want - n) (w.drop n)).map (vs ++ ·) := by
  have hfront : c.codec.size ∣ (w.take n).length := by
    rwa [List.length_take, Nat.min_eq_left hlen]
  have hsplit : w.take want = w.take n ++ (w.drop n).take (want - n) := by
    rw [← List.take_add, Nat.add_sub_cancel' hle]
  unfold elementsIn?
  rw [List.length_drop, hsplit, Codec.decodeAll_append c.codec c.size_pos hfront]
  by_cases hall : want ≤ w.length
  · rw [if_pos hall, if_pos (by omega)]
    cases c.codec.decodeAll (w.take n) with
    | error e => rfl
    | ok vs => cases c.codec.decodeAll ((w.drop n).take (want - n)) <;> rfl
  · rw [if_neg hall, if_neg (by omega)]
    cases c.codec.decodeAll (w.take n) <;> rfl

/-! ### Transfers that decode their spans -/

/-- A consumer that decodes the elements of every span and puts them with those that came before. -/
structure Decodes (c : Collection α) (consume : Span → Bytes → τ → Except ValueError Unit × τ)
    (put : List α → τ → τ) : Prop where
  ok : ∀ span bs t vs, span.length = bs.length → c.elementSize ∣ bs.length → c.codec.decodeAll bs = .ok vs →
    consume span bs t = (.ok (), put vs t)
  error : ∀ span bs t e, c.codec.decodeAll bs = .error e → (consume span bs t).1 = .error e
  put_nil : ∀ t, put [] t = t
  put_put : ∀ vs ws t, put ws (put vs t) = put (vs ++ ws) t

variable {consume : Span → Bytes → τ → Except ValueError Unit × τ} {put : List α → τ → τ} {t : τ}

/-- The elements of a transfer, whatever the chunks of whole elements are. -/
theorem agrees_runSpans (hconsume : c.Decodes consume put) (hchunk : 0 < chunk) (hcut : c.elementSize ∣ chunk)
    (hs : s.Steady) (hwhole : c.elementSize ∣ total - start) :
    let run := runSpans chunk hchunk total (Source.takeSpan consume) start (s, t)
    Agrees (fun _ => total - start) s.left ((c.elementsIn? (total - start) s.left).map (put · t))
      (run.1.map fun () => run.2.2, run.2.1) := by
  induction hwant : total - start using Nat.strongRecOn generalizing start s t with
  | _ want ih =>
    subst hwant
    rw [runSpans]
    split
    case isFalse hend =>
      have hzero : total - start = 0 := by omega
      rw [hzero, elementsIn?_zero, Option.map_some, hconsume.put_nil]
      exact ⟨rfl, by simp, rfl, hs⟩
    case isTrue hmore =>
      obtain ⟨n, hn⟩ : ∃ n, min chunk (total - start) = n := ⟨_, rfl⟩
      have hle : n ≤ total - start := hn ▸ Nat.min_le_right _ _
      have hwhole' : c.elementSize ∣ n := hn ▸ dvd_min hcut hwhole
      have hspan : Span.length ⟨start, start + n⟩ = n := Nat.add_sub_cancel_left _ _
      have htake := hs.agrees_takeExactly n
      simp only [hn, Source.takeSpan, hspan]
      generalize s.takeExactly n = taken at htake
      obtain ⟨_ | data, source⟩ := taken
      case error e =>
        -- The stream has ended, so the whole transfer does not fit either.
        have hlen : ¬ n ≤ s.left.length := by
          intro hlen
          rw [if_pos hlen] at htake
          cases htake.1
        have hnone : c.elementsIn? (total - start) s.left = none := if_neg (by omega)
        rw [hnone]
        exact ⟨_, rfl⟩
      case ok =>
        have hlen : n ≤ s.left.length := Decidable.byContradiction fun hlen => by
          rw [if_neg hlen] at htake
          obtain ⟨e, herror⟩ := htake
          cases herror
        rw [if_pos hlen] at htake
        obtain ⟨hdata, -, hleft, hsteady⟩ := htake
        cases hdata
        have hdata : (s.left.take n).length = n := by rw [List.length_take, Nat.min_eq_left hlen]
        rw [elementsIn?_cut hwhole' hle hlen]
        cases hdecode : c.codec.decodeAll (s.left.take n) with
        | error e =>
          have herror := hconsume.error ⟨start, start + n⟩ _ t e hdecode
          simp only
          generalize consume ⟨start, start + n⟩ (s.left.take n) t = got at herror ⊢
          obtain ⟨result, t'⟩ := got
          cases herror
          exact ⟨_, rfl⟩
        | ok vs =>
          have hok := hconsume.ok ⟨start, start + n⟩ _ t vs (by rw [hspan, hdata]) (by rwa [hdata]) hdecode
          have hrest : total - (start + n) = total - start - n := by omega
          have hmul : c.elementSize ∣ total - (start + n) := by
            rw [hrest]
            exact Nat.dvd_sub hwhole hwhole'
          have hlater := @ih (total - (start + n)) (by omega) (start + n) source (put vs t) hsteady hmul rfl
          rw [hleft] at hlater
          have hall := hlater.of_drop hlen (fun _ => total - start) fun _ _ =>
            show total - start = n + (total - (start + n)) by omega
          rw [hrest] at hall
          simpa [Function.comp_def, Except.toOption, hok, hconsume.put_put] using hall

/-- The elements of a transfer, in the first bytes of a stream. Without room for its buffer it is longer than any stream
in memory. -/
theorem agrees_stage (hconsume : c.Decodes consume put) {i : Inlet} (hs : i.source.Steady)
    (hstaging : i.staging.Allocatable) (hlen : total ≤ i.source.left.length → total ≤ maxCapacity)
    (hwhole : c.elementSize ∣ total) (t : τ) :
    let got := i.stage total c.elementSize consume t
    Agrees (fun _ => total) i.source.left ((c.elementsIn? total i.source.left).map fun vs => (total, put vs t))
      (got.1.map (·, got.2.2), got.2.1.source) := by
  unfold Inlet.stage
  by_cases hzero : total = 0
  · subst hzero
    rw [elementsIn?_zero, Option.map_some, hconsume.put_nil]
    exact ⟨rfl, Nat.zero_le _, rfl, hs⟩
  by_cases hroom : i.staging.Allocates total c.elementSize
  case neg =>
    have hlong : ¬ total ≤ i.source.left.length := fun hle =>
      hroom (hstaging.allocates (hlen hle) _)
    rw [StagingLimits.run_of_not_allocates hroom, elementsIn?, if_neg hlong]
    exact ⟨_, rfl⟩
  case pos =>
    have hchunk := i.staging.chunkLength_pos c.elementSize hzero
    have hcut := i.staging.dvd_chunkLength c.size_pos hwhole
    have hrun := @agrees_runSpans α τ c _ total 0 i.source consume put t hconsume hchunk hcut hs hwhole
    rw [StagingLimits.run_of_allocates hzero hroom]
    simp only [Nat.sub_zero] at hrun ⊢
    generalize runSpans _ _ _ _ _ _ = run at hrun ⊢
    obtain ⟨result, source, t'⟩ := run
    cases helements : c.elementsIn? total i.source.left with
    | none =>
      rw [helements] at hrun
      obtain ⟨e, herror⟩ := hrun
      cases result with
      | error e => exact ⟨e, rfl⟩
      | ok => cases herror
    | some vs =>
      rw [helements] at hrun
      obtain ⟨hgot, hle, hleft, hsteady⟩ := hrun
      cases result with
      | error e => cases hgot
      | ok =>
        cases hgot
        exact ⟨rfl, hle, hleft, hsteady⟩

/-! ### Lists and destinations of elements -/

theorem decodes_decodeSpan (c : Collection α) : c.Decodes c.decodeSpan fun vs done => vs.reverse ++ done where
  ok span bs done vs _ _ hdecode := by simp only [decodeSpan, hdecode]
  error span bs done e hdecode := by simp only [decodeSpan, hdecode]
  put_nil done := List.nil_append done
  put_put vs ws done := by rw [List.reverse_append, List.append_assoc]

/-- The elements behind a header, in the first bytes that a stream has left. -/
theorem agrees_readElementsFrom (count : Nat) {i : Inlet} (hs : i.source.Steady) (hstaging : i.staging.Allocatable)
    (hlen : count * c.elementSize ≤ i.source.left.length → count * c.elementSize ≤ maxCapacity) :
    Agrees (fun read => read.2) i.source.left
      ((c.elementsIn? (count * c.elementSize) i.source.left).map (·, count * c.elementSize))
      ((c.readElementsFrom count i).1, (c.readElementsFrom count i).2.source) := by
  obtain ⟨total, htotal⟩ : ∃ total, count * c.elementSize = total := ⟨_, rfl⟩
  unfold readElementsFrom
  by_cases hword : count * c.elementSize ≤ maxWord
  case neg =>
    have hlong : ¬ count * c.elementSize ≤ i.source.left.length := fun hle =>
      hword (StagingLimits.le_maxWord (hlen hle))
    rw [bodyLength_of_lt (Nat.lt_of_not_le hword), elementsIn?, if_neg hlong]
    exact ⟨_, rfl⟩
  case pos =>
    have hwhole : c.elementSize ∣ total := ⟨count, by rw [← htotal, Nat.mul_comm]⟩
    rw [htotal] at hlen
    have hstage := agrees_stage c.decodes_decodeSpan hs hstaging hlen hwhole []
    rw [bodyLength_of_le hword, htotal]
    simp only
    generalize i.stage _ _ _ _ = run at hstage ⊢
    obtain ⟨result, i', done⟩ := run
    cases helements : c.elementsIn? total i.source.left with
    | none =>
      rw [helements] at hstage
      obtain ⟨e, herror⟩ := hstage
      cases result with
      | error e => exact ⟨e, rfl⟩
      | ok body => cases herror
    | some vs =>
      rw [helements] at hstage
      obtain ⟨hgot, hle, hleft, hsteady⟩ := hstage
      cases result with
      | error e => cases hgot
      | ok body =>
        cases hgot
        exact ⟨by simp, hle, hleft, hsteady⟩

end Collection

end MessageWire
