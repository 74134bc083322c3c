import Mathlib.Data.Set.Finite.List
import MessageWire.Proofs.Catalog.Resolution
import MessageWire.Proofs.Value.Streaming
/-!
# Destinations that are too short

What is written in one piece is refused in one piece: a destination that is too short is told the size of the value and
keeps its bytes (`Format.Stock.refuses`). The members of a deque go one by one behind their header, as long as there is
room, so a destination that is too short may be left with the front of the encoding (`Format.Stock.stopsShort`).
-/

namespace MessageWire

variable {α β : Type}

/-! ### Values that go one by one -/

/-- The types whose values are written in one piece: all but the deques. -/
def Ty.OnePiece : Ty → Prop
  | .collection .deque _ => False
  | .option t => t.OnePiece
  | _ => True

theorem Shape.contiguous_of_ne_deque {shape : Shape} (h : shape ≠ .deque) (α : Type) :
    (shape.holder α).contiguous = true := by
  cases shape
  case deque => exact absurd rfl h
  all_goals rfl

theorem Ty.nonempty_value : (t : Ty) → Nonempty t.Value
  | .scalar _ => ⟨0⟩
  | .array _ n => ⟨Vector.replicate n 0⟩
  | .bool => ⟨false⟩
  | .char => ⟨'a'⟩
  | .usize => ⟨0⟩
  | .isize => ⟨0⟩
  | .text => ⟨""⟩
  | .bytes => ⟨[]⟩
  | .collection shape t => ⟨(shape.holder t.Value).ofList []⟩
  | .option _ => ⟨none⟩

theorem Ty.infinite_of_not_onePiece {t : Ty} (h : ¬ t.OnePiece) : Infinite t.Value := by
  induction t with
  | option t ih =>
    have := ih h
    exact inferInstanceAs (Infinite (Option t.Value))
  | collection shape element =>
    cases shape
    case deque =>
      have := element.nonempty_value
      exact inferInstanceAs (Infinite (List element.Value))
    all_goals exact absurd trivial h
  | _ => exact absurd trivial h

theorem ElementCodec.encode_injective (e : ElementCodec α) : Function.Injective e.encode := by
  intro a b hsame
  have hdecode := congrArg e.decode hsame
  rw [e.decode_encode, e.decode_encode] at hdecode
  cases hdecode
  rfl

theorem ElementCodec.finite (e : ElementCodec α) : Finite α := by
  have : Finite UInt8 := Finite.of_injective UInt8.toFin fun _ _ => UInt8.toFin_inj.mp
  have hcodes : Finite {bs : Bytes | bs.length = e.size} := (List.finite_length_eq UInt8 e.size).to_subtype
  exact Finite.of_injective (fun a => (⟨e.encode a, e.length_encode a⟩ : {bs : Bytes | bs.length = e.size}))
    fun _ _ hsame => e.encode_injective (congrArg Subtype.val hsame)

/-! ### Collections -/

namespace Collection

variable {c : Collection α} {vs : List α} {dst : Bytes}

/-- The bytes that a list of `count` elements leaves in `room` of them that are too few: those of its header, and of the
elements that find room behind it. -/
def reached (c : Collection α) (count room : Nat) : Nat :=
  let header := CountHeader.sizeFor count
  header + (room - header) / c.elementSize * c.elementSize

theorem take_listCode {count : Nat} (hle : count ≤ vs.length) :
    (Format.listCode c vs).take (CountHeader.sizeFor vs.length + count * c.elementSize) =
      CountHeader.least vs.length ++ c.codec.element.encodeList (vs.take count) := by
  have hlen : (c.codec.element.encodeList (vs.take count)).length = count * c.elementSize := by
    rw [ElementCodec.length_encodeList, List.length_take, Nat.min_eq_left hle]
    rfl
  rw [Format.listCode, Codec.encodeAll_eq, ← c.codec.element.encodeList_split count vs, ← List.append_assoc]
  apply List.take_left'
  rw [List.length_append, CountHeader.length_least, hlen]

theorem writeDeclared_of_lt_header (hcount : vs.length ≤ CountHeader.maxCount)
    (hless : dst.length < CountHeader.sizeFor vs.length) :
    c.writeDeclared vs.length vs dst =
      (.error (.bufferOverflow (CountHeader.sizeFor vs.length) dst.length), dst) := by
  rw [← CountHeader.length_least] at hless
  rw [writeDeclared, CountHeader.write, CountHeader.bytes_some hcount]
  simp only [putFront_of_lt hless, CountHeader.length_least]

/-- Members that go one by one leave the front of the encoding, up to the last one that found room. -/
theorem writeDeclared_of_lt_code (hcount : vs.length ≤ CountHeader.maxCount)
    (hword : vs.length * c.elementSize ≤ maxWord) (hheader : CountHeader.sizeFor vs.length ≤ dst.length)
    (hless : dst.length < (Format.listCode c vs).length) :
    let kept := c.reached vs.length dst.length
    c.writeDeclared vs.length vs dst =
      (.error (.bufferOverflow (saturate (Format.listCode c vs).length) dst.length),
        (Format.listCode c vs).take kept ++ dst.drop kept) := by
  intro kept
  have hcode := Format.length_listCode c vs
  have hfew := Format.length_fitting_of_lt c
    (show dst.length - CountHeader.sizeFor vs.length < vs.length * c.elementSize by omega)
  have hlen : (c.codec.element.encodeList (c.fitting (dst.length - CountHeader.sizeFor vs.length) vs)).length =
      (dst.length - CountHeader.sizeFor vs.length) / c.elementSize * c.elementSize := by
    rw [fitting, List.length_take] at hfew
    rw [ElementCodec.length_encodeList, fitting, List.length_take, Nat.min_eq_left (by omega)]
    rfl
  have hkept : (Format.listCode c vs).take kept = CountHeader.least vs.length ++
      c.codec.element.encodeList (c.fitting (dst.length - CountHeader.sizeFor vs.length) vs) := by
    rw [fitting, List.length_take] at hfew
    exact take_listCode (by omega)
  have hput := overwrite_append (CountHeader.least vs.length) (dst.drop (CountHeader.sizeFor vs.length))
    (c.codec.element.encodeList (c.fitting (dst.length - CountHeader.sizeFor vs.length) vs))
  rw [CountHeader.length_least, List.drop_drop, hlen] at hput
  rw [← CountHeader.length_least] at hheader
  rw [writeDeclared, CountHeader.write, CountHeader.bytes_some hcount]
  simp only [putFront_of_le hheader, CountHeader.length_least, c.bodyLength_of_le hword, List.take_length,
    if_pos hfew, hput, hcode, hkept]
  rfl

end Collection

/-! ### Formats -/

namespace Format

variable {f : Format α} {v : α} {code : Bytes}

/-- A destination that is too short is told the size of the value, and keeps its bytes. -/
def Refuses (f : Format α) (v : α) : Prop :=
  ∀ dst, dst.length < f.encodedSize v →
    f.write v dst = (.error (.bufferOverflow (f.encodedSize v) dst.length), dst)

/-- What becomes of a destination that is too short for `code`, a header and `count` elements: nothing, or the header
and the elements that found room. -/
structure StopsShort (f : Format α) (v : α) (count : Nat) (code : Bytes) : Prop where
  before : ∀ dst, dst.length < CountHeader.sizeFor count →
    ∃ needed, dst.length < needed ∧ needed ≤ code.length
      ∧ f.write v dst = (.error (.bufferOverflow needed dst.length), dst)
  behind : ∃ unit, 0 < unit ∧ code.length = CountHeader.sizeFor count + count * unit
    ∧ ∀ dst, CountHeader.sizeFor count ≤ dst.length → dst.length < code.length →
      let kept := CountHeader.sizeFor count + (dst.length - CountHeader.sizeFor count) / unit * unit
      f.write v dst = (.error (.bufferOverflow code.length dst.length), code.take kept ++ dst.drop kept)

theorem refuses_of_putFront (hsize : f.encodedSize v = code.length)
    (hwrite : ∀ dst, f.write v dst = putFront code dst) : f.Refuses v := by
  intro dst hless
  rw [hsize] at hless ⊢
  rw [hwrite, putFront_of_lt hless]

theorem refuses_null {f : Format (Option α)} (hsize : f.encodedSize none = 1)
    (hwrite : f.write none = CountHeader.write none) : f.Refuses none :=
  refuses_of_putFront (writes_null hsize hwrite).encodedSize fun _ => by rw [hwrite]; rfl

theorem Refuses.required {f : Format (Option α)} (h : f.Refuses (some v)) : (Format.required f).Refuses v := h

theorem StopsShort.required {f : Format (Option α)} {count : Nat} (h : f.StopsShort (some v) count code) :
    (Format.required f).StopsShort v count code :=
  ⟨h.before, h.behind⟩

theorem refuses_bytes {raw : Bytes} (h : raw.length ≤ CountHeader.maxCount) : optionalBytes.Refuses (some raw) :=
  refuses_of_putFront (writes_bytes h).encodedSize (writeBytes_eq h)

theorem refuses_text {s : String} (h : (Utf8.encode s).length ≤ CountHeader.maxCount) :
    optionalText.Refuses (some s) := refuses_bytes h

theorem refuses_list {h : Holder α β} (hpiece : h.contiguous = true) (c : Collection α)
    (limits : StagingLimits) {v : β}
    (hcount : (h.toList v).length ≤ CountHeader.maxCount) (hsize : c.encodedLength (h.toList v).length < maxWord) :
    (optionalCollection h c limits).Refuses (some v) := by
  refine refuses_of_putFront (encodedLength_eq hsize) fun dst => ?_
  simp only [optionalCollection, hpiece, if_true]
  exact writeAll_eq c hcount (length_le_maxWord hsize) dst

theorem stopsShort_list {h : Holder α β} (hpieces : h.contiguous = false) (c : Collection α) (limits : StagingLimits)
    {v : β} (hcount : (h.toList v).length ≤ CountHeader.maxCount)
    (hsize : c.encodedLength (h.toList v).length < maxWord) :
    (optionalCollection h c limits).StopsShort (some v) (h.toList v).length (listCode c (h.toList v)) := by
  have hwrite : (optionalCollection h c limits).write (some v) = c.writeDeclared (h.toList v).length (h.toList v) := by
    funext dst
    simp only [optionalCollection, hpieces, Bool.false_eq_true, if_false]
  have hcode := length_listCode c (h.toList v)
  have hword : saturate (listCode c (h.toList v)).length = (listCode c (h.toList v)).length := by
    rw [encodedLength_eq hsize] at hsize
    exact Nat.min_eq_left (Nat.le_of_lt hsize)
  refine ⟨fun dst hless => ⟨_, hless, by omega, ?_⟩, c.elementSize, c.size_pos, hcode,
    fun dst hheader hless => ?_⟩
  · rw [hwrite, Collection.writeDeclared_of_lt_header hcount hless]
  · rw [hwrite, Collection.writeDeclared_of_lt_code hcount (length_le_maxWord hsize) hheader hless, hword]
    rfl

theorem stopsShort_nullList (h : Holder α β) (c : Collection α) (limits : StagingLimits) :
    (optionalCollection h c limits).StopsShort none 0 nullCode where
  before _ hless := ⟨1, hless, Nat.le_refl _, putFront_of_lt hless⟩
  behind := ⟨1, Nat.one_pos, rfl, fun _ hheader hless => absurd hheader (Nat.not_le_of_lt hless)⟩

variable {within : StagingLimits → Prop} {t : Ty} {f : Format t.Value} {v : t.Value}

theorem Stock.refuses (h : Stock within t f) (hpiece : t.OnePiece) (hcount : t.count v ≤ CountHeader.maxCount)
    (hsize : f.encodedSize v < maxWord) : f.Refuses v := by
  cases h with
  | single codec => exact refuses_of_putFront (codec.element.length_encode v).symm fun _ => rfl
  | text => exact (refuses_text hcount).required
  | optionalText =>
    cases v with
    | none => exact refuses_null rfl rfl
    | some v => exact refuses_text hcount
  | bytes => exact (refuses_bytes hcount).required
  | collection shape c _ =>
    have hshape : shape ≠ .deque := by
      rintro rfl
      exact hpiece
    exact (refuses_list (Shape.contiguous_of_ne_deque hshape _) c _ hcount hsize).required
  | optionalCollection shape c _ =>
    have hshape : shape ≠ .deque := by
      rintro rfl
      exact hpiece
    cases v with
    | none => exact refuses_null rfl rfl
    | some v => exact refuses_list (Shape.contiguous_of_ne_deque hshape _) c _ hcount hsize

theorem Stock.stopsShort (h : Stock within t f) (hpieces : ¬ t.OnePiece) (hcount : t.count v ≤ CountHeader.maxCount)
    (hsize : f.encodedSize v < maxWord) : ∃ code, f.Writes v code ∧ f.StopsShort v (t.count v) code := by
  cases h with
  -- Single elements all have one size, and there are more deques than that tells apart.
  | single codec =>
    have := Ty.infinite_of_not_onePiece hpieces
    have := codec.element.finite
    exact (not_finite t.Value).elim
  | text => exact absurd trivial hpieces
  | optionalText => exact absurd trivial hpieces
  | bytes => exact absurd trivial hpieces
  | collection shape c _ =>
    cases shape
    case deque =>
      exact ⟨_, (writes_list (Shape.deque.holder _) c _ hcount hsize).required,
        (stopsShort_list rfl c _ hcount hsize).required⟩
    all_goals exact absurd trivial hpieces
  | optionalCollection shape c _ =>
    cases shape
    case deque =>
      cases v with
      | none => exact ⟨nullCode, writes_null rfl rfl, stopsShort_nullList _ c _⟩
      | some v =>
        exact ⟨_, writes_list (Shape.deque.holder _) c _ hcount hsize, stopsShort_list rfl c _ hcount hsize⟩
    all_goals exact absurd trivial hpieces

end Format

namespace Catalog

variable {c : Catalog} {t : Ty} {f : Format t.Value}

/-- **Short destinations** keep their bytes and are told the size. Only the members of a deque go one by one, as far as
there is room. -/
theorem write_short (hc : c.Reachable) (hresolve : (c.resolve t).1 = .ok f) (v : t.Value)
    (hcount : t.count v ≤ CountHeader.maxCount) (hsize : f.encodedSize v < maxWord) :
    ∃ code, code.length = f.encodedSize v
      ∧ (∀ dst, f.encodedSize v ≤ dst.length →
        f.write v dst = (.ok (f.encodedSize v), code ++ dst.drop (f.encodedSize v)))
      ∧ (t.OnePiece → ∀ dst, dst.length < f.encodedSize v →
        f.write v dst = (.error (.bufferOverflow (f.encodedSize v) dst.length), dst))
      ∧ (¬ t.OnePiece →
        let header := CountHeader.sizeFor (t.count v)
        (∀ dst, dst.length < header → ∃ needed, dst.length < needed ∧ needed ≤ f.encodedSize v
          ∧ f.write v dst = (.error (.bufferOverflow needed dst.length), dst))
        ∧ ∃ unit, 0 < unit ∧ f.encodedSize v = header + t.count v * unit
          ∧ ∀ dst, header ≤ dst.length → dst.length < f.encodedSize v →
            let kept := header + (dst.length - header) / unit * unit
            f.write v dst
              = (.error (.bufferOverflow (f.encodedSize v) dst.length), code.take kept ++ dst.drop kept)) := by
  have hstock := hc.stock.of_resolve hresolve
  by_cases hpiece : t.OnePiece
  · obtain ⟨code, -, -, hwrites, -⟩ := hstock.codes v hcount hsize
    refine ⟨code, hwrites.encodedSize.symm, ?_, fun _ => hstock.refuses hpiece hcount hsize,
      fun hpieces => absurd hpiece hpieces⟩
    rw [hwrites.encodedSize]
    exact hwrites.write
  · obtain ⟨code, hwrites, hshort⟩ := hstock.stopsShort hpiece hcount hsize
    rw [hwrites.encodedSize]
    exact ⟨code, rfl, hwrites.write, fun hone => absurd hone hpiece, fun _ => ⟨hshort.before, hshort.behind⟩⟩

/-- Three words in a deque, and a destination that has room for one of them. -/
theorem write_short_of_deque :
    let c := ofSettings {}
    let t : Ty := .collection .deque (.scalar .u16)
    let v : t.Value := [1, 2, 3]
    let dst : Bytes := List.replicate 5 0xee
    ∃ f code, (c.resolve t).1 = .ok f ∧ f.write v (List.replicate 8 0) = (.ok 8, code)
      ∧ f.write v dst = (.error (.bufferOverflow 8 5), code.take 4 ++ [0xee]) := by
  intro c t v dst
  let f : Format t.Value := .collection (Shape.deque.holder (BitVec 16)) ⟨.block (.word 2) .little, by decide⟩ {}
  have hresolve : (c.resolve t).1 = .ok f := rfl
  have hsize : f.encodedSize v = 8 := by decide
  obtain ⟨code, hlen, hroom, -, hpieces⟩ := write_short (.new _) hresolve v (by decide) (by decide)
  obtain ⟨-, unit, hpos, hunit, hbehind⟩ := hpieces id
  have hheader : CountHeader.sizeFor (t.count v) = 2 := by decide
  have hcount : t.count v = 3 := by decide
  rw [hsize, hheader, hcount] at hunit
  obtain rfl : unit = 2 := by omega
  have hgot := hbehind dst (by decide) (by decide)
  have hwrite := hroom (List.replicate 8 0) (by decide)
  rw [hsize] at hgot hwrite
  rw [List.drop_replicate, Nat.sub_self, List.replicate_zero, List.append_nil] at hwrite
  rw [hheader, show dst.length = 5 from rfl] at hgot
  exact ⟨f, code, hresolve, hwrite, hgot⟩

/-- A deque that does not fit touches its destination, and asks for the room of its header if there is none. -/
theorem write_short_touches_destination :
    let c := ofSettings {}
    let t : Ty := .collection .deque (.scalar .u16)
    let v : t.Value := [1, 2, 3]
    let dst : Bytes := List.replicate 5 0xee
    ∃ f, (c.resolve t).1 = .ok f ∧ f.encodedSize v = 8 ∧ dst.length = 5
      ∧ f.write v dst = (.error (.bufferOverflow 8 5), [1, 3, 1, 0, 0xee])
      ∧ f.write v dst ≠ (.error (.bufferOverflow (f.encodedSize v) dst.length), dst)
      ∧ f.write v [0xee] = (.error (.bufferOverflow 2 1), [0xee]) := by
  intro c t v dst
  let f : Format t.Value := .collection (Shape.deque.holder (BitVec 16)) ⟨.block (.word 2) .little, by decide⟩ {}
  have hresolve : (c.resolve t).1 = .ok f := rfl
  have hwrite : f.write v dst = (.error (.bufferOverflow 8 5), [1, 3, 1, 0, 0xee]) := by decide +kernel
  refine ⟨f, hresolve, by decide, rfl, hwrite, ?_, by decide +kernel⟩
  rw [hwrite]
  decide

end Catalog

end MessageWire
