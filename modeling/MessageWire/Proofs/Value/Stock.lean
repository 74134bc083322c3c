import MessageWire.Proofs.Value.Writing
import MessageWire.Value.Type
/-!
# The formats in stock

`Format.Stock` lists the formats that the library builds for the types of values, with the staging limits of which
something is known. Each reads lawfully (`Stock.local_read`, `Stock.follows`), and each writes an encoding that reads
back as the value that was written (`Stock.codes`). Values are compared as they are, but for windows over lists, which
are the same if they show the same (`Ty.Same`).
-/

namespace MessageWire

/-! ### Values and their counts -/

/-- The value with every window cropped to what it shows. -/
def Ty.cropped : (t : Ty) → t.Value → t.Value
  | .collection .segment _, v => Segment.ofList v.toList
  | .option t, v => v.map t.cropped
  | _, v => v

/-- Equality of values, with windows compared by what they show. -/
def Ty.Same (t : Ty) (v w : t.Value) : Prop := t.cropped v = t.cropped w

theorem Ty.same_segment_iff {element : Ty} (v w : Segment element.Value) :
    (Ty.collection .segment element).Same v w ↔ v.toList = w.toList := by
  constructor
  · intro h
    have hlist := congrArg Segment.toList h
    simpa [cropped] using hlist
  · intro h
    simp only [Same, cropped, h]

theorem Ty.same_some_iff {t : Ty} (v w : t.Value) : (Ty.option t).Same (some v) (some w) ↔ t.Same v w := by
  simp [Same, cropped]

theorem Ty.not_same_none {t : Ty} (v : t.Value) : ¬ (Ty.option t).Same none (some v) := by
  simp [Same, cropped]

/-- The count that the header of a value carries: the bytes of a text or a byte string, the members of a
collection. -/
def Ty.count : (t : Ty) → t.Value → Nat
  | .text, v => (Utf8.encode v).length
  | .bytes, v => v.length
  | .collection shape element, v => ((shape.holder element.Value).toList v).length
  | .option t, v => match v with
    | some v => t.count v
    | none => 0
  | _, _ => 0

theorem Shape.same_ofList (shape : Shape) {element : Ty} (v : shape.Value element.Value) :
    (Ty.collection shape element).Same v
      ((shape.holder element.Value).ofList ((shape.holder element.Value).toList v)) := by
  cases shape
  case segment => exact (Ty.same_segment_iff _ _).mpr (Segment.toList_ofList _).symm
  all_goals rfl

/-! ### Formats -/

namespace Format

/-- The formats that the library builds, with staging limits of a kind. -/
inductive Stock (within : StagingLimits → Prop) : (t : Ty) → Format t.Value → Prop where
  | single {t : Ty} (codec : Codec t.Value) : Stock within t (scalar codec.element)
  | text : Stock within .text text
  | optionalText : Stock within (.option .text) optionalText
  | bytes : Stock within .bytes bytes
  | collection (shape : Shape) {element : Ty} (c : Collection element.Value) {limits : StagingLimits} :
    within limits → Stock within (.collection shape element) (collection (shape.holder element.Value) c limits)
  | optionalCollection (shape : Shape) {element : Ty} (c : Collection element.Value) {limits : StagingLimits} :
    within limits →
      Stock within (.option (.collection shape element)) (optionalCollection (shape.holder element.Value) c limits)

variable {t : Ty} {f : Format t.Value} {within : StagingLimits → Prop}

theorem Stock.local_read (h : Stock within t f) : LocalRead Prod.snd f.read := by
  cases h with
  | single codec => exact local_scalar codec.element
  | text => exact local_required local_optionalText
  | optionalText => exact local_optionalText
  | bytes => exact local_required local_optionalBytes
  | collection shape c _ => exact local_required (local_optionalCollection _ c _)
  | optionalCollection shape c _ => exact local_optionalCollection _ c _

theorem Stock.follows (h : Stock StagingLimits.Allocatable t f) : f.Follows := by
  cases h with
  | single codec => exact follows_scalar codec.element
  | text => exact follows_optionalText.required
  | optionalText => exact follows_optionalText
  | bytes => exact follows_optionalBytes.required
  | collection shape c hlimits => exact (follows_optionalCollection _ c hlimits).required
  | optionalCollection shape c hlimits => exact follows_optionalCollection _ c hlimits

/-- Every value whose count fits a header, and whose size fits a word, has an encoding. -/
theorem Stock.codes (h : Stock within t f) (v : t.Value) (hcount : t.count v ≤ CountHeader.maxCount)
    (hsize : f.encodedSize v < maxWord) : ∃ code w, t.Same v w ∧ f.Writes v code ∧ f.ReadsBack code w := by
  cases h with
  | single codec => exact ⟨_, v, rfl, writes_scalar codec.element v, readsBack_scalar codec.element v⟩
  | text => exact ⟨_, v, rfl, (writes_text hcount).required, (readsBack_text hcount).required⟩
  | optionalText =>
    cases v with
    | none => exact ⟨nullCode, none, rfl, writes_null rfl rfl, fun _ => rfl⟩
    | some v => exact ⟨_, some v, rfl, writes_text hcount, readsBack_text hcount⟩
  | bytes => exact ⟨_, v, rfl, (writes_bytes hcount).required, (readsBack_bytes hcount).required⟩
  | collection shape c _ =>
    have hword := length_le_maxWord hsize
    exact ⟨_, _, shape.same_ofList v, (writes_list (shape.holder _) c _ hcount hsize).required,
      (readsBack_list (shape.holder _) c _ hcount hword).required⟩
  | optionalCollection shape c _ =>
    cases v with
    | none => exact ⟨nullCode, none, rfl, writes_null rfl rfl, fun _ => rfl⟩
    | some v =>
      have hword := length_le_maxWord hsize
      exact ⟨_, _, (Ty.same_some_iff _ _).mpr (shape.same_ofList v),
        writes_list (shape.holder _) c _ hcount hsize, readsBack_list (shape.holder _) c _ hcount hword⟩

end Format

end MessageWire
