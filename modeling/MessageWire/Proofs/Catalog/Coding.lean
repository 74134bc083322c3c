import Mathlib
import MessageWire.Proofs.Catalog.Resolution
import MessageWire.Proofs.Value.Streaming
/-!
# Coding with a catalog

The formats that a catalog finds undo what they did (`Catalog.decode_encode`), read from a stream as they do from a
buffer (`Catalog.readFrom_eq_read`), and write to a stream what they write into a buffer (`Catalog.writeTo_eq_write`).
Streams need the staging buffers that a buffer does without, so the latter two hold where these can be had: a pool
without room for its threshold ends the process (`Catalog.readFrom_ne_read`, `Catalog.writeTo_ne_write`).
-/

namespace MessageWire

namespace Format

variable {α : Type} {f : Format α} {v w : α} {code : Bytes}

theorem ReadsBack.error_of_front (h : f.ReadsBack code w) (hlocal : LocalRead Prod.snd f.read) {src : Bytes}
    (hfront : src <+: code) (hne : src ≠ code) : ∃ e, f.read src = .error e := by
  cases hread : f.read src with
  | error e => exact ⟨e, rfl⟩
  | ok a =>
    obtain ⟨rest, rfl⟩ := hfront
    have hall := hlocal.append hread rest
    have hback := h []
    rw [List.append_nil, hall] at hback
    cases hback
    have hlen := hlocal.length_le hread
    have hnil : rest = [] := by
      rw [List.length_append] at hlen
      exact List.eq_nil_of_length_eq_zero (by omega)
    exact absurd (by rw [hnil, List.append_nil]) hne

theorem Writes.toBytes (h : f.Writes v code) : f.toBytes v = .ok code := by
  have hroom : code.length ≤ (List.replicate (f.encodedSize v) (0 : UInt8)).length :=
    Nat.le_of_eq (by rw [List.length_replicate, h.encodedSize])
  rw [Format.toBytes, h.write _ hroom]
  simp

/-- Where a value has an encoding, its bytes are that encoding, also if it is too long for its size to be told. -/
theorem toBytes_eq_code {payload : Bytes}
    (hwrite : ∀ dst, code.length ≤ dst.length → f.write v dst = (.ok code.length, code ++ dst.drop code.length))
    (hrefused : ∀ dst, dst.length < code.length → ∃ e, (f.write v dst).1 = .error e)
    (h : f.toBytes v = .ok payload) : payload = code := by
  unfold Format.toBytes at h
  obtain ⟨dst, hdst⟩ : ∃ dst, List.replicate (f.encodedSize v) (0 : UInt8) = dst := ⟨_, rfl⟩
  rw [hdst] at h
  by_cases hroom : code.length ≤ dst.length
  · rw [hwrite dst hroom] at h
    simpa using h.symm
  · obtain ⟨e, he⟩ := hrefused dst (Nat.lt_of_not_le hroom)
    generalize f.write v dst = written at he h
    obtain ⟨result, dst'⟩ := written
    subst he
    cases h

theorem not_toBytes_of_error {payload : Bytes}
    (h : ∃ e, (f.write v (List.replicate (f.encodedSize v) 0)).1 = .error e) : f.toBytes v ≠ .ok payload := by
  intro hbytes
  obtain ⟨e, he⟩ := h
  unfold Format.toBytes at hbytes
  generalize f.write v _ = written at he hbytes
  obtain ⟨result, dst⟩ := written
  subst he
  cases hbytes

theorem ReadsBack.fromBytes (h : f.ReadsBack code w) (name : String) : f.fromBytes name code = .ok w := by
  have hback := h []
  rw [List.append_nil] at hback
  rw [Format.fromBytes, hback]
  simp

theorem ReadsBack.fromBytes_append (h : f.ReadsBack code w) (name : String) {s : Bytes} (hs : s ≠ []) :
    ∃ e, f.fromBytes name (code ++ s) = .error e := by
  have hlen : ¬ code.length = (code ++ s).length := by
    have hpos := List.length_pos_iff.mpr hs
    rw [List.length_append]
    omega
  rw [Format.fromBytes, h s]
  simp only [if_neg hlen]
  exact ⟨_, rfl⟩

theorem eq_nullCode_of_toBytes {f : Format (Option α)} {payload : Bytes} (hsize : f.encodedSize none = 1)
    (hwrite : f.write none = CountHeader.write none) (h : f.toBytes none = .ok payload) : payload = nullCode := by
  rw [(writes_null hsize hwrite).toBytes] at h
  cases h
  rfl

theorem eq_bytesCode_of_toBytes {raw payload : Bytes} (h : optionalBytes.toBytes (some raw) = .ok payload) :
    raw.length ≤ CountHeader.maxCount ∧ payload = bytesCode raw := by
  have hcount : raw.length ≤ CountHeader.maxCount := by
    apply Nat.le_of_not_lt
    intro hlt
    exact not_toBytes_of_error (bytes_refused hlt _) h
  exact ⟨hcount, toBytes_eq_code (writes_bytes hcount).write (writes_bytes hcount).refused h⟩

theorem readsBack_of_list {α β : Type} {h : Holder α β} {c : Collection α} {limits : StagingLimits} {v : β}
    {payload : Bytes} (hbytes : (optionalCollection h c limits).toBytes (some v) = .ok payload) :
    (optionalCollection h c limits).ReadsBack payload (some (h.ofList (h.toList v))) := by
  have hcount : (h.toList v).length ≤ CountHeader.maxCount := by
    apply Nat.le_of_not_lt
    intro hlt
    exact not_toBytes_of_error (list_refused h c limits hlt _) hbytes
  have hword : (h.toList v).length * c.elementSize ≤ maxWord := by
    -- A longer list does not fit into what its size asks for, which is a word.
    apply Nat.le_of_not_lt
    intro hlt
    have hsize : (optionalCollection h c limits).encodedSize (some v) ≤ maxWord := Nat.min_le_right _ _
    have hlen := length_listCode c (h.toList v)
    refine not_toBytes_of_error (refused_list h c limits hcount ?_) hbytes
    rw [List.length_replicate]
    omega
  have hcode := toBytes_eq_code (fun _ => write_list h c limits hcount hword)
    (fun _ => refused_list h c limits hcount) hbytes
  rw [hcode]
  exact readsBack_list h c limits hcount hword

theorem Stock.readsBack_of_toBytes {within : StagingLimits → Prop} {t : Ty} {f : Format t.Value}
    (h : Stock within t f) {v : t.Value} {payload : Bytes} (hbytes : f.toBytes v = .ok payload) :
    ∃ w, t.Same v w ∧ f.ReadsBack payload w := by
  cases h with
  | single codec =>
    have hwrites := writes_scalar codec.element v
    rw [toBytes_eq_code hwrites.write hwrites.refused hbytes]
    exact ⟨v, rfl, readsBack_scalar codec.element v⟩
  | text =>
    obtain ⟨hcount, rfl⟩ := eq_bytesCode_of_toBytes hbytes
    exact ⟨v, rfl, (readsBack_text hcount).required⟩
  | optionalText =>
    cases v with
    | none =>
      obtain rfl := eq_nullCode_of_toBytes rfl rfl hbytes
      exact ⟨none, rfl, fun _ => rfl⟩
    | some v =>
      obtain ⟨hcount, rfl⟩ := eq_bytesCode_of_toBytes hbytes
      exact ⟨some v, rfl, readsBack_text hcount⟩
  | bytes =>
    obtain ⟨hcount, rfl⟩ := eq_bytesCode_of_toBytes hbytes
    exact ⟨v, rfl, (readsBack_bytes hcount).required⟩
  | collection shape c _ => exact ⟨_, shape.same_ofList v, (readsBack_of_list hbytes).required⟩
  | optionalCollection shape c _ =>
    cases v with
    | none =>
      obtain rfl := eq_nullCode_of_toBytes rfl rfl hbytes
      exact ⟨none, rfl, fun _ => rfl⟩
    | some v => exact ⟨_, (Ty.same_some_iff _ _).mpr (shape.same_ofList v), readsBack_of_list hbytes⟩

end Format

namespace Catalog

variable {c : Catalog} {t : Ty} {f : Format t.Value}

theorem withFormat_of_resolve {α : Type} (hresolve : (c.resolve t).1 = .ok f)
    (act : Format t.Value → Except ValueError α) : c.withFormat t act = (act f, c.afterLookup t) := by
  change ((c.resolve t).1.bind act, (c.resolve t).2) = _
  rw [hresolve]
  rfl

theorem toBytes_of_resolve (hresolve : (c.resolve t).1 = .ok f) (v : t.Value) :
    c.toBytes t v = (f.toBytes v, c.afterLookup t) := withFormat_of_resolve hresolve _

theorem fromBytes_of_resolve (hresolve : (c.resolve t).1 = .ok f) (src : Bytes) :
    (c.fromBytes t src).1 = f.fromBytes t.name src := congrArg Prod.fst (withFormat_of_resolve hresolve _)

/-- **Decoding undoes encoding.** A value whose count fits a header has one encoding, of the size that is told, and no
other value has it. -/
theorem decode_encode (hc : c.Reachable) (hresolve : (c.resolve t).1 = .ok f) (v : t.Value)
    (hcount : t.count v ≤ CountHeader.maxCount) (hsize : f.encodedSize v < maxWord) :
    ∃ code w, t.Same v w ∧
      (∀ dst, (∃ n, (f.write v dst).1 = .ok n) ↔ f.encodedSize v ≤ dst.length) ∧
      (∀ dst, f.encodedSize v ≤ dst.length →
        f.write v dst = (.ok (f.encodedSize v), code ++ dst.drop (f.encodedSize v))) ∧
      (∀ s, f.read (code ++ s) = .ok (w, f.encodedSize v)) ∧
      (∀ src, src <+: code → src ≠ code → ∃ e, f.read src = .error e) ∧
      (c.toBytes t v).1 = .ok code ∧ ((c.toBytes t v).2.fromBytes t code).1 = .ok w ∧
      (∀ s, s ≠ [] → ∃ e, ((c.toBytes t v).2.fromBytes t (code ++ s)).1 = .error e) ∧
      ∀ v', t.count v' ≤ CountHeader.maxCount → f.encodedSize v' < maxWord → (c.toBytes t v').1 = .ok code →
        t.Same v v' := by
  have hstock := hc.stock.of_resolve hresolve
  have hlater : ((c.afterLookup t).resolve t).1 = .ok f := by rw [hc.stock.resolve_afterLookup, hresolve]
  obtain ⟨code, w, hsame, hwrites, hback⟩ := hstock.codes v hcount hsize
  have hlen := hwrites.encodedSize
  refine ⟨code, w, hsame, fun dst => ⟨fun ⟨n, hn⟩ => ?_, fun hroom => ?_⟩, fun dst hroom => ?_, fun s => ?_,
    fun src hfront hne => ?_, ?_, ?_, fun s hs => ?_, fun v' hcount' hsize' hcode => ?_⟩
  · apply Decidable.byContradiction
    intro hroom
    obtain ⟨e, he⟩ := hwrites.refused dst (by omega)
    rw [hn] at he
    cases he
  · exact ⟨_, by rw [hwrites.write dst (by omega)]⟩
  · rw [hlen] at hroom ⊢
    exact hwrites.write dst hroom
  · rw [hlen]
    exact hback s
  · exact hback.error_of_front hstock.local_read hfront hne
  · rw [toBytes_of_resolve hresolve, hwrites.toBytes]
  · rw [toBytes_of_resolve hresolve, fromBytes_of_resolve hlater, hback.fromBytes]
  · rw [toBytes_of_resolve hresolve, fromBytes_of_resolve hlater]
    exact hback.fromBytes_append t.name hs
  -- Two values with one encoding are both what is read back from it.
  · obtain ⟨code', w', hsame', hwrites', hback'⟩ := hstock.codes v' hcount' hsize'
    rw [toBytes_of_resolve hresolve, hwrites'.toBytes] at hcode
    cases hcode
    have hread := hback []
    rw [hback' []] at hread
    cases hread
    exact hsame.trans hsame'.symm

/-- Three words in two pieces of memory, on a machine of the other byte order. Null is encoded in another way. -/
theorem decode_encode_deque :
    let c := ofSettings { hostOrder := .big }
    let t : Ty := .option (.collection .deque (.scalar .u16))
    let v : t.Value := some [1, 2, 0xabcd]
    ∃ code, (c.toBytes t v).1 = .ok code ∧ ((c.toBytes t v).2.fromBytes t code).1 = .ok v ∧
      (c.toBytes t none).1 ≠ .ok code := by
  intro c t v
  let f : Format t.Value :=
    .optionalCollection (Shape.deque.holder (BitVec 16)) ⟨.block (.word 2) .big, by decide⟩ {}
  have hresolve : (c.resolve t).1 = .ok f := rfl
  have hcount : t.count v ≤ CountHeader.maxCount := by decide
  have hsize : f.encodedSize v < maxWord := by decide
  obtain ⟨code, w, hsame, -, -, -, -, hto, hfrom, -, honly⟩ := decode_encode (.new _) hresolve v hcount hsize
  have hw : v = w := by simpa [Ty.Same, Ty.cropped, t] using hsame
  refine ⟨code, hto, hw ▸ hfrom, fun hnull => ?_⟩
  have hsame' : t.Same v none := honly none (by decide) (by decide) hnull
  exact Ty.not_same_none _ hsame'.symm

/-- **A stream is read as a buffer is**, wherever its reads are cut, and exactly the bytes of the value are taken. No
buffer has more bytes than `maxCapacity`. -/
theorem readFrom_eq_read (hc : c.ReachableUnder StagingLimits.Allocatable) (hresolve : (c.resolve t).1 = .ok f)
    (src : Bytes) (hlen : src.length ≤ maxCapacity) (s : Source) (hleft : s.left = src) (hs : s.Steady) :
    (∀ v n, f.read src = .ok (v, n) ↔ (f.readFrom s).1 = .ok (v, n)) ∧
      (∀ v n, f.read src = .ok (v, n) → n ≤ src.length ∧ (f.readFrom s).2.left = src.drop n) ∧
      ((∃ e, f.read src = .error e) ↔ ∃ e, (f.readFrom s).1 = .error e) := by
  subst hleft
  have hagrees := (hc.stock.of_resolve hresolve).follows s hs hlen
  cases hread : f.read s.left with
  | error e =>
    rw [hread] at hagrees
    obtain ⟨e', he⟩ := hagrees
    simp [he]
  | ok a =>
    rw [hread] at hagrees
    obtain ⟨hgot, hle, hleft, -⟩ := hagrees
    refine ⟨fun v n => ?_, fun v n h => ?_, ?_⟩
    · rw [hgot]
    · cases h
      exact ⟨hle, hleft⟩
    · simp [hgot]

/-- Two words and a byte that does not belong to them, in pieces of one, two and three bytes. -/
theorem readFrom_eq_read_of_pieces :
    let c := ofSettings { staging := { poolThreshold := 0, maxBufferSize := 3 } }
    let t : Ty := .collection .list (.scalar .u16)
    let s : Source := ⟨[1, 2, 1, 0, 2, 0, 9], [.fail .interrupted, .give 1, .give 2, .fail .interrupted, .give 3]⟩
    ∃ f, (c.resolve t).1 = .ok f ∧ s.Steady ∧ (f.readFrom s).1 = .ok ([1, 2], 6)
      ∧ (f.readFrom s).2.left = [9] := by
  intro c t s
  let f : Format t.Value :=
    .collection (Shape.list.holder (BitVec 16)) ⟨.block (.word 2) .little, by decide⟩
      { poolThreshold := 0, maxBufferSize := 3 }
  have hresolve : (c.resolve t).1 = .ok f := rfl
  have hs : s.Steady := ⟨by simp [Source.Giving, s], by simp [s]⟩
  have hread : f.read s.left = .ok ([1, 2], 6) := by with_unfolding_all rfl
  obtain ⟨hsame, htaken, -⟩ := readFrom_eq_read (.new _ (by decide)) hresolve s.left (by decide) s rfl hs
  exact ⟨f, hresolve, hs, (hsame _ _).mp hread, (htaken _ _ hread).2⟩

/-- A list of one byte, which a buffer gives, while the stream asks for a buffer that there cannot be. -/
theorem readFrom_ne_read :
    let huge : StagingLimits := { poolThreshold := 0xffffffffffffffff, maxBufferSize := 0, poolCapacity := 0 }
    let c := ofSettings { staging := huge }
    let t : Ty := .collection .list (.scalar .u8)
    let s : Source := ⟨[1, 1, 7], []⟩
    huge.fillsPool = true ∧ ∃ f, (c.resolve t).1 = .ok f ∧ s.Steady ∧ f.read s.left = .ok ([7], 3)
      ∧ (f.readFrom s).1 = .error .capacityOverflow := by
  intro huge c t s
  let f : Format t.Value := .collection (Shape.list.holder (BitVec 8)) ⟨.block (.word 1) .little, by decide⟩ huge
  have hs : s.Steady := ⟨by simp [Source.Giving, s], by simp [s]⟩
  exact ⟨rfl, f, rfl, hs, by with_unfolding_all rfl, by cbv⟩

/-- **A stream is written to as a buffer is**, or gets a proper front part of the bytes if it fails. A steady sink gets
them all. -/
theorem writeTo_eq_write (hc : c.ReachableUnder StagingLimits.Allocatable) (hresolve : (c.resolve t).1 = .ok f)
    (v : t.Value) (hcount : t.count v ≤ CountHeader.maxCount) (hsize : f.encodedSize v ≤ maxCapacity) (s : Sink) :
    ∃ code, code.length = f.encodedSize v
      ∧ (∀ dst, f.encodedSize v ≤ dst.length →
        f.write v dst = (.ok (f.encodedSize v), code ++ dst.drop (f.encodedSize v)))
      ∧ (∀ n, (f.writeTo v s).1 = .ok n → n = f.encodedSize v ∧ (f.writeTo v s).2.bytes = s.bytes ++ code)
      ∧ (∀ e, (f.writeTo v s).1 = .error e → ∃ front rest, rest ≠ [] ∧ code = front ++ rest
        ∧ (f.writeTo v s).2.bytes = s.bytes ++ front)
      ∧ (s.Steady → ∃ n, (f.writeTo v s).1 = .ok n) := by
  obtain ⟨code, hwrites, hstreams⟩ := (hc.stock.of_resolve hresolve).streams v hcount hsize
  obtain ⟨htakes, hlength⟩ := hstreams s
  rw [hwrites.encodedSize]
  refine ⟨code, rfl, hwrites.write, fun n hn => ⟨hlength n hn, ?_⟩, fun e he => ?_, fun hs => ?_⟩
  · rw [hn] at htakes
    exact htakes.1
  · rw [he] at htakes
    exact htakes.1
  · cases hresult : (f.writeTo v s).1 with
    | ok n => exact ⟨n, rfl⟩
    | error e =>
      rw [hresult] at htakes
      exact absurd hs htakes.2

/-- Two words in chunks of one, from a machine of the other byte order to a sink that takes a byte and is interrupted.
-/
theorem writeTo_eq_write_of_pieces :
    let c := ofSettings { hostOrder := .big, staging := { poolThreshold := 0, maxBufferSize := 3 } }
    let t : Ty := .collection .deque (.scalar .u16)
    let s : Sink := { plan := [.give 1, .fail .interrupted, .give 2, .pending, .give 1] }
    ∃ f, (c.resolve t).1 = .ok f ∧ s.Steady ∧ (f.writeTo [1, 2] s).1 = .ok 6
      ∧ (f.writeTo [1, 2] s).2.bytes = [1, 2, 0, 1, 0, 2] := by
  intro c t s
  let f : Format t.Value :=
    .collection (Shape.deque.holder (BitVec 16)) ⟨.block (.word 2) .big, by decide⟩
      { poolThreshold := 0, maxBufferSize := 3 }
  have hresolve : (c.resolve t).1 = .ok f := rfl
  have hs : s.Steady := ⟨by simp [s], by simp [s]⟩
  have hsize : f.encodedSize [1, 2] = 6 := by decide
  obtain ⟨code, -, hwrite, hok, -, hsteady⟩ :=
    writeTo_eq_write (.new _ (by decide)) hresolve [1, 2] (by decide) (by decide) s
  have hcode : code = [1, 2, 0, 1, 0, 2] := by
    have hbuffer := congrArg Prod.snd (hwrite (List.replicate 6 0) (by decide))
    have hwritten : (f.write [1, 2] (List.replicate 6 0)).2 = [1, 2, 0, 1, 0, 2] := by decide +kernel
    rw [hwritten, hsize] at hbuffer
    simpa using hbuffer.symm
  obtain ⟨n, hn⟩ := hsteady hs
  obtain ⟨rfl, hbytes⟩ := hok n hn
  exact ⟨f, hresolve, hs, hn.trans (by rw [hsize]), by simpa [hcode, s, Sink.bytes] using hbytes⟩

/-- One word of the other byte order, which a buffer takes, while the stream asks for a buffer that there cannot be. -/
theorem writeTo_ne_write :
    let huge : StagingLimits := { poolThreshold := 0xffffffffffffffff, maxBufferSize := 0, poolCapacity := 0 }
    let c := ofSettings { hostOrder := .big, staging := huge }
    let t : Ty := .collection .list (.scalar .u16)
    let s : Sink := {}
    huge.fillsPool = true ∧ ∃ f, (c.resolve t).1 = .ok f ∧ s.Steady
      ∧ f.write [7] [0, 0, 0, 0] = (.ok 4, [1, 1, 0, 7]) ∧ (f.writeTo [7] s).1 = .error .capacityOverflow := by
  intro huge c t s
  let f : Format t.Value := .collection (Shape.list.holder (BitVec 16)) ⟨.block (.word 2) .big, by decide⟩ huge
  have hs : s.Steady := ⟨by simp [s], by simp [s]⟩
  exact ⟨rfl, f, rfl, hs, by with_unfolding_all rfl, by cbv⟩

end Catalog

end MessageWire
