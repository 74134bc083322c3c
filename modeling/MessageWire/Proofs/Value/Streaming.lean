import MessageWire.Proofs.Value.Stock
import MessageWire.Proofs.Value.Staging
/-!
# What the formats write to streams

A stream write delivers an encoding if it tells its length and the sink has taken all of it, or if it fails and the
sink has taken a proper front part (`Sink.Delivers`). Deliveries compose as encodings do (`Delivers.append`), and a
transfer delivers its elements wherever staging cuts it (`Outlet.delivers_stage`). So every format delivers to a stream
what it writes into a buffer (`Format.Stock.streams`).
-/

namespace MessageWire

variable {α β : Type}

/-! ### Deliveries -/

namespace Sink

variable {s s' s'' : Sink} {code later : Bytes} {n : Nat} {result : Except ValueError Nat}

/-- A write of `code` to a sink, with the length that it tells. -/
structure Delivers (s : Sink) (code : Bytes) (got : Except ValueError Nat × Sink) : Prop where
  takes : s.Takes (· = .interrupted) code got.1 got.2
  length : ∀ n, got.1 = .ok n → n = code.length

theorem delivers_put (s : Sink) (data : Bytes) : s.Delivers data (s.put data) := by
  have htakes := s.takes_writeAll data
  unfold put
  generalize s.writeAll data = written at htakes ⊢
  obtain ⟨_ | _, s'⟩ := written
  · exact ⟨htakes, fun n hn => nomatch hn⟩
  · refine ⟨htakes, fun n hn => ?_⟩
    cases hn
    rfl

theorem Delivers.append (h : s.Delivers code (.ok n, s')) (hlater : s'.Delivers later (result, s'')) :
    s.Delivers (code ++ later) (result.map (n + ·), s'') := by
  refine ⟨(h.takes.append hlater.takes).map _, fun m hm => ?_⟩
  cases result with
  | error e => cases hm
  | ok k =>
    cases hm
    rw [List.length_append, ← h.length n rfl, ← hlater.length k rfl]

theorem Delivers.append_of_error {e : ValueError} (h : s.Delivers code (.error e, s')) (later : Bytes) :
    s.Delivers (code ++ later) (.error e, s') :=
  ⟨h.takes.append_of_error later e, fun _ hn => nomatch hn⟩

theorem delivers_countHeader (s : Sink) {count : Nat} (h : count ≤ CountHeader.maxCount) :
    s.Delivers (CountHeader.least count) (CountHeader.writeTo (some count) s) := by
  rw [CountHeader.writeTo, CountHeader.bytes_some h]
  exact s.delivers_put _

theorem delivers_writeBytesTo (s : Sink) {raw : Bytes} (h : raw.length ≤ CountHeader.maxCount) :
    s.Delivers (Format.bytesCode raw) (Format.writeBytesTo raw s) := by
  have hheader := s.delivers_countHeader h
  unfold Format.writeBytesTo
  generalize CountHeader.writeTo (some raw.length) s = first at hheader ⊢
  obtain ⟨_ | n, s'⟩ := first
  · exact hheader.append_of_error raw
  · have hbody := s'.delivers_put raw
    simp only
    generalize s'.put raw = second at hbody ⊢
    obtain ⟨_ | m, s''⟩ := second
    · exact hheader.append hbody
    · exact hheader.append hbody

end Sink

/-! ### Elements through staging -/

/-- The bytes of a span are those of the elements that fill it, taken from the front of those that are left. -/
def ElementCodec.Produces (e : ElementCodec α) (produce : Span → List α → Except ValueError Bytes × List α) :
    Prop :=
  ∀ span left count, span.length = count * e.size → count ≤ left.length →
    produce span left = (.ok (e.encodeList (left.take count)), left.drop count)

variable {produce : Span → List α → Except ValueError Bytes × List α}

theorem ElementCodec.encodeList_split (e : ElementCodec α) (count : Nat) (vs : List α) :
    e.encodeList (vs.take count) ++ e.encodeList (vs.drop count) = e.encodeList vs := by
  rw [encodeList, encodeList, ← List.flatMap_append, List.take_append_drop, encodeList]

/-- A transfer is cut between two elements, so its spans deliver the elements one after the other. -/
theorem takes_runSpans {e : ElementCodec α} (hpos : 0 < e.size) (hproduce : e.Produces produce) {chunk : Nat}
    (hchunk : 0 < chunk) (hcut : e.size ∣ chunk) {total start : Nat} (s : Sink) {left : List α}
    (htotal : total = start + left.length * e.size) :
    let run := runSpans chunk hchunk total (Sink.putSpan produce) start (s, left)
    s.Takes (· = .interrupted) (e.encodeList left) run.1 run.2.1 ∧ (run.1 = .ok () → run.2.2 = []) := by
  -- Along the elements left: the first chunk holds some of them, and no part of any other.
  induction hlen : left.length using Nat.strongRecOn generalizing start s left with
  | _ m ih =>
    subst hlen
    rw [runSpans]
    split
    case isFalse hend =>
      have hzero : left.length * e.size = 0 := by omega
      have hnil : left = [] := by
        apply List.eq_nil_of_length_eq_zero
        exact (Nat.mul_eq_zero.mp hzero).resolve_right (Nat.ne_of_gt hpos)
      subst hnil
      exact ⟨Sink.takes_nil (), fun _ => rfl⟩
    case isTrue hmore =>
      obtain ⟨count, later, hpos', hmembers, hcount, htotal'⟩ := exists_next_span hpos hchunk hcut htotal hmore
      have hle : count ≤ left.length := by omega
      have hspan : Span.length ⟨start, start + count * e.size⟩ = count * e.size := Nat.add_sub_cancel_left _ _
      have hwrite := s.takes_writeAll (e.encodeList (left.take count))
      simp only [hcount, Sink.putSpan, hproduce _ left count hspan hle]
      generalize s.writeAll (e.encodeList (left.take count)) = written at hwrite ⊢
      obtain ⟨e' | _, s'⟩ := written
      · have hall : s.Takes _ _ (.error (.io e') : Except ValueError Unit) s' :=
          hwrite.append_of_error (e.encodeList (left.drop count)) _
        rw [e.encodeList_split] at hall
        refine ⟨hall, fun hok => ?_⟩
        cases hok
      · have hlater_len : (left.drop count).length = later := by
          rw [List.length_drop]
          omega
        have hlater := ih later (by omega) s' (hlater_len ▸ htotal') hlater_len
        have hall := hwrite.append hlater.1
        rw [e.encodeList_split] at hall
        exact ⟨hall, hlater.2⟩

/-- A staged transfer delivers its elements, whatever the limits are, if there is room for its buffer. -/
theorem Outlet.delivers_stage {e : ElementCodec α} (hpos : 0 < e.size) (hproduce : e.Produces produce) (o : Outlet)
    (vs : List α) {total unit : Nat} (hunit : e.size = unit) (htotal : vs.length * unit = total)
    (hroom : o.staging.Allocates total unit) :
    let staged := o.stage total unit produce vs
    o.sink.Delivers (e.encodeList vs) (staged.1, staged.2.1.sink)
      ∧ (∀ n, staged.1 = .ok n → staged.2.2 = []) := by
  subst hunit
  have hlen : (e.encodeList vs).length = total := by rw [e.length_encodeList, htotal]
  unfold Outlet.stage
  by_cases hzero : total = 0
  · have hnil : vs = [] := by
      apply List.eq_nil_of_length_eq_zero
      exact (Nat.mul_eq_zero.mp (htotal.trans hzero)).resolve_right (Nat.ne_of_gt hpos)
    subst hnil hzero
    refine ⟨⟨Sink.takes_nil 0, fun n hn => ?_⟩, fun _ _ => rfl⟩
    cases hn
    rfl
  · have hwhole : e.size ∣ total := ⟨vs.length, by rw [← htotal, Nat.mul_comm]⟩
    have hchunk := o.staging.chunkLength_pos e.size hzero
    have hcut := o.staging.dvd_chunkLength hpos hwhole
    have hstart : total = 0 + vs.length * e.size := by rw [Nat.zero_add, htotal]
    have hrun := takes_runSpans hpos hproduce hchunk hcut o.sink hstart
    rw [StagingLimits.run_of_allocates hzero hroom]
    simp only
    generalize runSpans _ _ _ _ _ _ = run at hrun ⊢
    obtain ⟨_ | _, sink, left⟩ := run
    · exact ⟨⟨hrun.1, fun n hn => by cases hn⟩, fun n hn => by cases hn⟩
    · refine ⟨⟨hrun.1, fun n hn => ?_⟩, fun _ _ => hrun.2 rfl⟩
      cases hn
      exact hlen.symm

/-! ### Collections -/

namespace Codec

variable (c : Codec α)

theorem produces_encodeSpan (hpos : 0 < c.size) : c.element.Produces c.encodeSpan := by
  intro span left count hspan hle
  have hcount : span.length / c.size = count := by
    rw [hspan]
    exact Nat.mul_div_cancel _ hpos
  rw [encodeSpan]
  simp only [hcount, encodeAll_eq]

theorem delivers_stageAll (hpos : 0 < c.size) {vs : List α} {o : Outlet} (hword : vs.length * c.size ≤ maxWord)
    (hroom : o.staging.Allocates (vs.length * c.size) c.size) :
    o.sink.Delivers (c.encodeAll vs) ((c.stageAll vs o).1, (c.stageAll vs o).2.sink) := by
  have hstage := Outlet.delivers_stage hpos (c.produces_encodeSpan hpos) o vs rfl rfl hroom
  rw [encodeAll_eq, stageAll, bytesOf_of_le hword]
  exact hstage.1

/-- Memory in wire order already goes out as it lies, all other elements through staging. -/
theorem delivers_writeAll (hpos : 0 < c.size) {vs : List α} {o : Outlet} (hword : vs.length * c.size ≤ maxWord)
    (hroom : o.staging.Allocates (vs.length * c.size) c.size) :
    o.sink.Delivers (c.encodeAll vs) ((c.writeAll vs o).1, (c.writeAll vs o).2.sink) := by
  have hstage := c.delivers_stageAll hpos hword hroom
  cases c with
  | loop e => exact hstage
  | block p order =>
    cases order with
    | big => exact hstage
    | little => exact o.sink.delivers_put _

end Codec

namespace Collection

variable (c : Collection α)

theorem produces_encodeDeclaredSpan (declared yielded : Nat) :
    c.codec.element.Produces (c.encodeDeclaredSpan declared yielded) := by
  intro span left count hspan hle
  have hcount : span.length / c.elementSize = count := by
    rw [hspan]
    exact Nat.mul_div_cancel _ c.size_pos
  rw [encodeDeclaredSpan]
  simp only [hcount, (reaches_iff _ _).mpr hle, if_true]

theorem delivers_writeAllTo {vs : List α} (h : vs.length ≤ CountHeader.maxCount) {o : Outlet}
    (hword : vs.length * c.elementSize ≤ maxWord)
    (hroom : o.staging.Allocates (vs.length * c.elementSize) c.elementSize) :
    o.sink.Delivers (Format.listCode c vs) ((c.writeAllTo vs o).1, (c.writeAllTo vs o).2.sink) := by
  have hheader := o.sink.delivers_countHeader h
  unfold writeAllTo writeCountTo
  generalize CountHeader.writeTo (some vs.length) o.sink = first at hheader ⊢
  obtain ⟨_ | n, sink⟩ := first
  · exact hheader.append_of_error _
  · have hbody := c.codec.delivers_writeAll (o := { o with sink := sink }) c.size_pos hword hroom
    simp only
    generalize c.codec.writeAll vs { o with sink := sink } = second at hbody ⊢
    obtain ⟨_ | m, o'⟩ := second
    · exact hheader.append hbody
    · exact hheader.append hbody

/-- Members that are written one by one are as many as the header says. -/
theorem delivers_writeDeclaredTo {vs : List α} (h : vs.length ≤ CountHeader.maxCount) {o : Outlet}
    (hword : vs.length * c.elementSize ≤ maxWord)
    (hroom : o.staging.Allocates (vs.length * c.elementSize) c.elementSize) :
    o.sink.Delivers (Format.listCode c vs)
      ((c.writeDeclaredTo vs.length vs o).1, (c.writeDeclaredTo vs.length vs o).2.sink) := by
  have hheader := o.sink.delivers_countHeader h
  unfold writeDeclaredTo writeCountTo
  rw [c.bodyLength_of_le hword]
  simp only
  generalize CountHeader.writeTo (some vs.length) o.sink = first at hheader ⊢
  obtain ⟨_ | n, sink⟩ := first
  · exact hheader.append_of_error _
  · have hstage := Outlet.delivers_stage c.size_pos (c.produces_encodeDeclaredSpan vs.length vs.length)
      { o with sink := sink } vs (show c.codec.element.size = c.elementSize from rfl) rfl hroom
    rw [Format.listCode, Codec.encodeAll_eq]
    simp only at hstage ⊢
    generalize Outlet.stage _ _ _ _ _ = second at hstage ⊢
    obtain ⟨_ | m, o', left⟩ := second
    · exact hheader.append hstage.1
    · obtain rfl : left = [] := hstage.2 m rfl
      exact hheader.append hstage.1

end Collection

/-! ### Formats -/

namespace Format

/-- A format delivers `code` for `v`, whatever the sink does. -/
def Streams (f : Format α) (v : α) (code : Bytes) : Prop := ∀ s : Sink, s.Delivers code (f.writeTo v s)

theorem Streams.required {f : Format (Option α)} {v : α} {code : Bytes} (h : f.Streams (some v) code) :
    (Format.required f).Streams v code := h

theorem streams_scalar (e : ElementCodec α) (v : α) : (scalar e).Streams v (e.encode v) :=
  fun s => s.delivers_put _

theorem streams_bytes {raw : Bytes} (h : raw.length ≤ CountHeader.maxCount) :
    optionalBytes.Streams (some raw) (bytesCode raw) :=
  fun s => s.delivers_writeBytesTo h

theorem streams_text {t : String} (h : (Utf8.encode t).length ≤ CountHeader.maxCount) :
    optionalText.Streams (some t) (bytesCode (Utf8.encode t)) := streams_bytes h

theorem streams_nullText : optionalText.Streams none nullCode :=
  fun s => s.delivers_put _

theorem streams_list (h : Holder α β) (c : Collection α) {limits : StagingLimits} {v : β}
    (hcount : (h.toList v).length ≤ CountHeader.maxCount) (hlimits : limits.Allocatable)
    (hlen : (h.toList v).length * c.elementSize ≤ maxCapacity) :
    (optionalCollection h c limits).Streams (some v) (listCode c (h.toList v)) := by
  intro s
  have hword := StagingLimits.le_maxWord hlen
  have hroom := hlimits.allocates hlen c.elementSize
  unfold optionalCollection
  simp only
  split
  · exact c.delivers_writeAllTo hcount (o := ⟨s, limits⟩) hword hroom
  · exact c.delivers_writeDeclaredTo hcount (o := ⟨s, limits⟩) hword hroom

theorem streams_nullList (h : Holder α β) (c : Collection α) (limits : StagingLimits) :
    (optionalCollection h c limits).Streams none nullCode :=
  fun s => s.delivers_put _

/-- Elements take up no more bytes than what they are part of. -/
theorem length_le_of_encodedLength {c : Collection α} {count : Nat} (h : c.encodedLength count ≤ maxCapacity) :
    count * c.elementSize ≤ maxCapacity := by
  unfold Collection.encodedLength saturate at h
  unfold maxCapacity at h ⊢
  unfold maxWord at h
  omega

/-- Every value whose count fits a header, and whose encoding fits a buffer, is delivered to a stream as it is written
into a buffer. -/
theorem Stock.streams {t : Ty} {f : Format t.Value} (h : Stock StagingLimits.Allocatable t f) (v : t.Value)
    (hcount : t.count v ≤ CountHeader.maxCount) (hsize : f.encodedSize v ≤ maxCapacity) :
    ∃ code, f.Writes v code ∧ f.Streams v code := by
  have hsize' : f.encodedSize v < maxWord := Nat.lt_of_le_of_lt hsize (by decide)
  cases h with
  | single codec => exact ⟨_, writes_scalar codec.element v, streams_scalar codec.element v⟩
  | text => exact ⟨_, (writes_text hcount).required, (streams_text hcount).required⟩
  | optionalText =>
    cases v with
    | none => exact ⟨nullCode, writes_null rfl rfl, streams_nullText⟩
    | some v => exact ⟨_, writes_text hcount, streams_text hcount⟩
  | bytes => exact ⟨_, (writes_bytes hcount).required, (streams_bytes hcount).required⟩
  | collection shape c hlimits =>
    have hlen := length_le_of_encodedLength hsize
    exact ⟨_, (writes_list (shape.holder _) c _ hcount hsize').required,
      (streams_list (shape.holder _) c hcount hlimits hlen).required⟩
  | optionalCollection shape c hlimits =>
    cases v with
    | none => exact ⟨nullCode, writes_null rfl rfl, streams_nullList (shape.holder _) c _⟩
    | some v =>
      have hlen := length_le_of_encodedLength hsize
      exact ⟨_, writes_list (shape.holder _) c _ hcount hsize', streams_list (shape.holder _) c hcount hlimits hlen⟩

end Format

end MessageWire
