import MessageWire.Proofs.Value.Limits
import MessageWire.Proofs.Value.Slots
/-!
# Values that go through a wire type

A value that is not its memory goes through a plain wire type. Each value is converted on its own, and it is stored and
loaded in one of several ways, by the byte order and by whether its slot is aligned for the wire type
(`Conversion.encodeAt`, `Conversion.decodeAt`). The address makes no difference (`Conversion.encodeOntoAt_eq`,
`Conversion.decodeOntoAt_eq`), and neither does the way in which lists are encoded: a list of values has the bytes that
the list of its wire values has as a block (`Conversion.encodeAll_list`), so it is written as that one is.
-/

namespace MessageWire

variable {α β : Type}

/-! ### Conversions -/

/-- The size of the buffer in which a wire value of the other byte order is turned around. -/
def turnSize : Nat := 16

/-- How values go through a plain wire type, the alignment of that type, and that its values fit the turning buffer. -/
structure Conversion (α β : Type) where
  plain : Plain β
  align : Nat
  toWire : α → β
  ofWire : β → Except ValueError α
  size_pos : 0 < plain.size
  size_le : plain.size ≤ turnSize
  ofWire_toWire : ∀ a, ofWire (toWire a) = .ok a

namespace Conversion

variable (k : Conversion α β) (order : ByteOrder)

def element : ElementCodec α := .converted k.plain order k.toWire k.ofWire k.ofWire_toWire

/-! ### Slots at addresses -/

/-- Stores a wire value in a slot byte by byte. -/
def storeUnaligned (w : β) (slot : Bytes) : Bytes := overwrite slot 0 (k.plain.image w)

/-- Stores a wire value in a slot as a whole, or byte by byte if the slot turns out not to allow it. -/
def storeAligned (address : Nat) (w : β) (slot : Bytes) : Bytes :=
  if slot.length = k.plain.size ∧ isAligned address k.align then k.plain.image w else k.storeUnaligned w slot

/-- Loads a wire value from a slot byte by byte. -/
def loadUnaligned (slot : Bytes) : β := k.plain.ofImage (slot.take k.plain.size)

/-- Loads a wire value from a slot as a whole, or byte by byte if the slot turns out not to allow it. -/
def loadAligned (address : Nat) (slot : Bytes) : β :=
  if slot.length = k.plain.size ∧ isAligned address k.align then k.plain.ofImage slot else k.loadUnaligned slot

/-- Encodes a value into the slot at an address. -/
def encodeAt (address : Nat) (a : α) (slot : Bytes) : Bytes :=
  if order.swaps then reverseBlocks k.plain.size (k.storeUnaligned (k.toWire a) slot)
  else if isAligned address k.align then k.storeAligned address (k.toWire a) slot
  else k.storeUnaligned (k.toWire a) slot

/-- Decodes the value in the slot at an address. -/
def decodeAt (address : Nat) (slot : Bytes) : Except ValueError α :=
  if order.swaps then
    let turned := overwrite ((List.replicate turnSize 0).take k.plain.size) 0 slot
    k.ofWire (k.loadUnaligned (reverseBlocks k.plain.size turned))
  else if isAligned address k.align then k.ofWire (k.loadAligned address slot)
  else k.ofWire (k.loadUnaligned slot)

/-- Encodes values into the slots of a destination at an address, as long as there are both. -/
def encodeOntoAt : Nat → List α → Bytes → Bytes
  | _, [], dst => dst
  | address, a :: as, dst =>
    if dst.length < k.plain.size then dst
    else k.encodeAt order address a (dst.take k.plain.size)
      ++ encodeOntoAt (address + k.plain.size) as (dst.drop k.plain.size)

/-- Decodes the slots of a source at an address onto the members of a destination, as long as there are both. -/
def decodeOntoAt : Nat → Bytes → List α → Except ValueError Unit × List α
  | _, _, [] => (.ok (), [])
  | address, src, a :: dst =>
    if src.length < k.plain.size then (.ok (), a :: dst)
    else
      match k.decodeAt order address (src.take k.plain.size) with
      | .error e => (.error e, a :: dst)
      | .ok b =>
        let (result, dst') := decodeOntoAt (address + k.plain.size) (src.drop k.plain.size) dst
        (result, b :: dst')

variable {k order}

theorem storeUnaligned_of_length {slot : Bytes} (hlen : slot.length = k.plain.size) (w : β) :
    k.storeUnaligned w slot = k.plain.image w :=
  overwrite_all ((k.plain.length_image w).trans hlen.symm)

theorem loadUnaligned_of_length {slot : Bytes} (hlen : slot.length = k.plain.size) :
    k.loadUnaligned slot = k.plain.ofImage slot := by
  rw [loadUnaligned, List.take_of_length_le (Nat.le_of_eq hlen)]

theorem encodeAt_eq (address : Nat) (a : α) {slot : Bytes} (hlen : slot.length = k.plain.size) :
    k.encodeAt order address a slot = (k.element order).encode a := by
  unfold encodeAt storeAligned
  simp only [storeUnaligned_of_length hlen, ite_self]
  cases order with
  | big => rfl
  | little => rfl

theorem decodeAt_eq (address : Nat) {slot : Bytes} (hlen : slot.length = k.plain.size) :
    k.decodeAt order address slot = (k.element order).decode slot := by
  have hbuffer : ((List.replicate turnSize (0 : UInt8)).take k.plain.size).length = k.plain.size := by
    rw [List.length_take, List.length_replicate, Nat.min_eq_left k.size_le]
  have hturned : (reverseBlocks k.plain.size slot).length = k.plain.size := by rw [length_reverseBlocks, hlen]
  unfold decodeAt loadAligned
  simp only [overwrite_all (hlen.trans hbuffer.symm), loadUnaligned_of_length hlen, loadUnaligned_of_length hturned,
    ite_self]
  cases order with
  | big => rfl
  | little => rfl

theorem encodeOntoAt_eq (address : Nat) (as : List α) (dst : Bytes) :
    k.encodeOntoAt order address as dst = (k.element order).encodeOnto as dst := by
  induction as generalizing address dst with
  | nil => rfl
  | cons a as ih =>
    rw [encodeOntoAt, ElementCodec.encodeOnto, ih]
    show (if dst.length < k.plain.size then dst else _) = if dst.length < k.plain.size then dst else _
    by_cases hless : dst.length < k.plain.size
    · rw [if_pos hless, if_pos hless]
    · rw [if_neg hless, if_neg hless, encodeAt_eq address a (by rw [List.length_take]; omega)]
      rfl

theorem decodeOntoAt_eq (address : Nat) (src : Bytes) (dst : List α) :
    k.decodeOntoAt order address src dst = (k.element order).decodeOnto src dst := by
  induction dst generalizing address src with
  | nil => rfl
  | cons a dst ih =>
    rw [decodeOntoAt, ElementCodec.decodeOnto, ih]
    show (if src.length < k.plain.size then _ else _) = if src.length < k.plain.size then _ else _
    by_cases hless : src.length < k.plain.size
    · rw [if_pos hless, if_pos hless]
    · rw [if_neg hless, if_neg hless, decodeAt_eq address (by rw [List.length_take]; omega)]
      rfl

/-! ### Lists -/

variable (k order)

def list : Collection α := ⟨.loop (k.element order), k.size_pos⟩

def wireList : Collection β := ⟨.block k.plain order, k.size_pos⟩

variable {k order}

theorem encodeList_element (as : List α) :
    (k.element order).encodeList as = (ElementCodec.plain k.plain order).encodeList (as.map k.toWire) := by
  rw [ElementCodec.encodeList, ElementCodec.encodeList, List.flatMap_map]
  rfl

/-- A list of values has the bytes of the block of its wire values. -/
theorem encodeAll_list (as : List α) :
    (k.list order).codec.encodeAll as = (k.wireList order).codec.encodeAll (as.map k.toWire) := by
  rw [Codec.encodeAll_eq, Codec.encodeAll_eq]
  exact encodeList_element as

/-- A list of values is decoded by converting the block of its wire values. -/
theorem decodeAll_list (k : Conversion α β) (order : ByteOrder) (bs : Bytes) :
    (k.list order).codec.decodeAll bs = (k.plain.ofImages (order.turn k.plain.size bs)).mapM k.ofWire := by
  rw [Codec.decodeAll_eq _ (k.list order).size_pos, Plain.ofImages, blocks_turn order k.size_pos, List.map_map,
    List.mapM_map]
  rfl

/-! ### Writes -/

/-- The lists of values and of wire values are as long in bytes. -/
theorem bodyLength_list (k : Conversion α β) (order : ByteOrder) (count : Nat) :
    (k.wireList order).bodyLength count = (k.list order).bodyLength count := rfl

theorem writeAll_list (as : List α) (dst : Bytes) :
    (k.list order).writeAll as dst = (k.wireList order).writeAll (as.map k.toWire) dst := by
  simp only [Collection.writeAll, encodeAll_list, List.length_map, bodyLength_list]

theorem fitting_wireList (room : Nat) (as : List α) :
    (k.wireList order).fitting room (as.map k.toWire) = ((k.list order).fitting room as).map k.toWire :=
  List.map_take.symm

theorem writeDeclared_list (declared : Nat) (as : List α) (dst : Bytes) :
    (k.list order).writeDeclared declared as dst = (k.wireList order).writeDeclared declared (as.map k.toWire) dst := by
  simp only [Collection.writeDeclared, ← List.map_take, fitting_wireList, List.length_map]
  simp only [list, wireList, Codec.element, encodeList_element]
  rfl

theorem writeUncounted_list (upper? : Option Nat) (as : List α) (dst : Bytes) :
    (k.list order).writeUncounted upper? as dst = (k.wireList order).writeUncounted upper? (as.map k.toWire) dst := by
  simp only [Collection.writeUncounted, fitting_wireList, List.length_map, List.isEmpty_map]
  simp only [list, wireList, Codec.element, encodeList_element]
  rfl

theorem listCode_list (as : List α) :
    Format.listCode (k.list order) as = Format.listCode (k.wireList order) (as.map k.toWire) := by
  rw [Format.listCode, Format.listCode, encodeAll_list, List.length_map]

/-- As many values as a header can count fit into a buffer. -/
theorem length_le_maxCapacity (k : Conversion α β) {count : Nat} (h : count ≤ CountHeader.maxCount) :
    count * k.plain.size ≤ maxCapacity :=
  Nat.le_trans (Nat.mul_le_mul h k.size_le) (by decide)

theorem delivers_list {as : List α} {o : Outlet} (hcount : as.length ≤ CountHeader.maxCount)
    (hstaging : o.staging.Allocatable) :
    o.sink.Delivers (Format.listCode (k.list order) as)
      (((k.list order).writeAllTo as o).1, ((k.list order).writeAllTo as o).2.sink) :=
  have hlen := k.length_le_maxCapacity hcount
  (k.list order).delivers_writeAllTo hcount (StagingLimits.le_maxWord hlen) (hstaging.allocates hlen _)

theorem delivers_wireList {as : List α} {o : Outlet} (hcount : as.length ≤ CountHeader.maxCount)
    (hstaging : o.staging.Allocatable) :
    o.sink.Delivers (Format.listCode (k.list order) as)
      (((k.wireList order).writeAllTo (as.map k.toWire) o).1,
        ((k.wireList order).writeAllTo (as.map k.toWire) o).2.sink) := by
  rw [← List.length_map k.toWire] at hcount
  have hlen := k.length_le_maxCapacity hcount
  rw [listCode_list]
  exact (k.wireList order).delivers_writeAllTo hcount (StagingLimits.le_maxWord hlen) (hstaging.allocates hlen _)

theorem sameWrite_writeAllTo {s : Sink} (hs : s.Steady) (as : List α) {first second : StagingLimits}
    (hfirst : first.Allocatable) (hsecond : second.Allocatable) :
    Collection.SameWrite ((k.list order).writeAllTo as ⟨s, first⟩)
      ((k.wireList order).writeAllTo (as.map k.toWire) ⟨s, second⟩) := by
  by_cases hcount : as.length ≤ CountHeader.maxCount
  · exact Collection.sameWrite_of_delivers hs (delivers_list (o := ⟨s, first⟩) hcount hfirst)
      (delivers_wireList (o := ⟨s, second⟩) hcount hsecond)
  · have hlong := Nat.lt_of_not_le hcount
    simp only [Collection.writeAllTo, List.length_map, Collection.writeCountTo_of_lt hlong]
    exact ⟨rfl, rfl⟩

theorem encodeDeclaredSpan_list (k : Conversion α β) (order : ByteOrder) (declared yielded : Nat) (span : Span)
    (left : List α) :
    (k.wireList order).encodeDeclaredSpan declared yielded span (left.map k.toWire) =
      (((k.list order).encodeDeclaredSpan declared yielded span left).1,
        ((k.list order).encodeDeclaredSpan declared yielded span left).2.map k.toWire) := by
  have hbytes (as : List α) : (k.wireList order).codec.element.encodeList (as.map k.toWire)
      = (k.list order).codec.element.encodeList as := (encodeList_element as).symm
  have hreach (count : Nat) : reaches count (left.map k.toWire) = reaches count left := by
    rw [Bool.eq_iff_iff, reaches_iff, reaches_iff, List.length_map]
  have hsize : (k.wireList order).elementSize = (k.list order).elementSize := rfl
  simp only [Collection.encodeDeclaredSpan, hsize, hreach, ← List.map_take, hbytes]
  split
  · exact Prod.ext rfl List.map_drop.symm
  · rfl

/-- A sequence goes member by member either way, so even a sink that fails does not tell them apart. -/
theorem writeDeclaredTo_list (declared : Nat) (as : List α) (o : Outlet) :
    (k.list order).writeDeclaredTo declared as o = (k.wireList order).writeDeclaredTo declared (as.map k.toWire) o := by
  unfold Collection.writeDeclaredTo
  rw [bodyLength_list]
  obtain _ | total := (k.list order).bodyLength declared
  · rfl
  simp only
  obtain ⟨_ | header, o'⟩ := Collection.writeCountTo declared o
  · rfl
  · have hstage :=
      o'.stage_map (k.encodeDeclaredSpan_list order declared as.length) total (k.list order).elementSize as
    simp only [List.length_map, show (k.wireList order).elementSize = (k.list order).elementSize from rfl, hstage]
    obtain ⟨_ | body, o'', _ | ⟨a, left⟩⟩ :=
      o'.stage _ _ ((k.list order).encodeDeclaredSpan declared as.length) as
    · rfl
    · rfl
    · rfl
    · rfl

end Conversion

end MessageWire
