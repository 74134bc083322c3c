import MessageWire.Value.Staging
/-!
# Elements

An element is a value whose encoding has a fixed size. There are two ways to encode lists of them. A
plain element is nothing but its memory, so a whole list is copied as one block and turned to wire order
afterwards (`Codec.block`). Any other element goes one at a time through its own conversion
(`Codec.loop`). `Codec.element` is the element-wise view of both.
-/

namespace MessageWire

/-! ### Plain elements -/

/-- How a type of values lies in memory, in images of a little-endian machine. -/
structure Plain (α : Type) where
  size : Nat
  image : α → Bytes
  ofImage : Bytes → α
  length_image : ∀ a, (image a).length = size
  ofImage_image : ∀ a, ofImage (image a) = a
  image_ofImage : ∀ bs, bs.length = size → image (ofImage bs) = bs

namespace Plain

def word (width : Nat) : Plain (BitVec (8 * width)) where
  size := width
  image v := littleEndian width v.toNat
  ofImage bs := BitVec.ofNat _ (ofLittleEndian bs)
  length_image := by simp
  ofImage_image v := by
    apply BitVec.eq_of_toNat_eq
    simp [ofLittleEndian_littleEndian, Nat.one_shiftLeft]
  image_ofImage bs hlen := by
    have hlt : ofLittleEndian bs < 2 ^ (8 * width) := by
      rw [← Nat.one_shiftLeft, ← hlen]
      exact ofLittleEndian_lt bs
    rw [BitVec.toNat_ofNat, Nat.mod_eq_of_lt hlt, ← hlen]
    exact littleEndian_ofLittleEndian bs

/-- The bytes of a list of values, one after the other. -/
def images {α : Type} (p : Plain α) (vs : List α) : Bytes := vs.flatMap p.image

/-- The values that lie one after the other in the given bytes. -/
def ofImages {α : Type} (p : Plain α) (bs : Bytes) : List α := (blocks p.size bs).map p.ofImage

theorem ofImages_images {α : Type} (p : Plain α) (hpos : 0 < p.size) (vs : List α) :
    p.ofImages (p.images vs) = vs := by
  rw [ofImages, images, blocks_flatMap hpos _ p.length_image, List.map_map, List.map_congr_left, List.map_id]
  exact fun v _ => p.ofImage_image v

@[simp] theorem length_images {α : Type} (p : Plain α) (vs : List α) :
    (p.images vs).length = vs.length * p.size := by
  induction vs with
  | nil => simp [images]
  | cons v vs ih =>
    rw [images, List.flatMap_cons, List.length_append, p.length_image, ← images, ih, List.length_cons,
      Nat.succ_mul, Nat.add_comm]

theorem images_map_ofImage {α : Type} (p : Plain α) {bss : List Bytes} (h : ∀ bs ∈ bss, bs.length = p.size) :
    p.images (bss.map p.ofImage) = bss.flatten := by
  induction bss with
  | nil => rfl
  | cons bs bss ih =>
    have hrest := ih fun bs' hmem => h bs' (by simp [hmem])
    rw [List.map_cons, images, List.flatMap_cons, ← images, hrest, p.image_ofImage bs (h bs (by simp)),
      List.flatten_cons]

/-- Arrays of `n` plain values, which lie one after the other. -/
def array {α : Type} (p : Plain α) (n : Nat) : Plain (Vector α n) where
  size := n * p.size
  image v := p.images v.toList
  ofImage bs := ⟨((firstBlocks p.size n bs).map p.ofImage).toArray, by simp⟩
  length_image v := by simp
  ofImage_image v := by
    apply Vector.toList_inj.mp
    have hlen : v.toList.length = n := by simp
    have hcut : firstBlocks p.size n (p.images v.toList) = v.toList.map p.image := by
      rw [← firstBlocks_flatMap p.image p.length_image, hlen, images]
    simp [hcut, Function.comp_def, p.ofImage_image]
  image_ofImage bs hlen := by
    have hall : ∀ block ∈ firstBlocks p.size n bs, block.length = p.size :=
      fun block h => length_of_mem_firstBlocks (Nat.le_of_eq hlen.symm) h
    simp only [Vector.toList_mk]
    rw [images_map_ofImage p hall, flatten_firstBlocks, ← hlen, List.take_length]

/-- A buffer with a value stored at an offset. Where the offset lies makes no difference: a value is
stored as its bytes, whether its address is aligned or not. -/
def store {α : Type} (p : Plain α) (buffer : Bytes) (offset : Nat) (v : α) : Bytes :=
  overwrite buffer offset (p.image v)

def load {α : Type} (p : Plain α) (buffer : Bytes) (offset : Nat) : α :=
  p.ofImage ((buffer.drop offset).take p.size)

end Plain

/-! ### Single elements -/

/-- A conversion between values and their wire bytes, of which there are always `size`. Whatever is
encoded decodes to itself. -/
structure ElementCodec (α : Type) where
  size : Nat
  encode : α → Bytes
  decode : Bytes → Except ValueError α
  length_encode : ∀ a, (encode a).length = size
  decode_encode : ∀ a, decode (encode a) = .ok a

namespace ElementCodec

def plain {α : Type} (p : Plain α) (order : ByteOrder) : ElementCodec α where
  size := p.size
  encode a := order.turn p.size (p.image a)
  decode bs := .ok (p.ofImage (order.turn p.size bs))
  length_encode a := by simp [p.length_image]
  decode_encode a := by rw [turn_turn order (p.length_image a), p.ofImage_image]

/-- Values that go through a plain wire type. Not every wire value need have a meaning. -/
def converted {α β : Type} (p : Plain β) (order : ByteOrder) (toWire : α → β)
    (ofWire : β → Except ValueError α) (ofWire_toWire : ∀ a, ofWire (toWire a) = .ok a) : ElementCodec α where
  size := p.size
  encode a := order.turn p.size (p.image (toWire a))
  decode bs := ofWire (p.ofImage (order.turn p.size bs))
  length_encode a := by simp [p.length_image]
  decode_encode a := by rw [turn_turn order (p.length_image _), p.ofImage_image, ofWire_toWire]

/-- The bytes of a list of elements, encoded one by one. -/
def encodeList {α : Type} (e : ElementCodec α) (vs : List α) : Bytes := vs.flatMap e.encode

/-- Decodes blocks one after the other, onto the values in `done`, which are kept last value first.
Stops at the first block that is no value. -/
def decodeEach {α : Type} (e : ElementCodec α) : List Bytes → List α → List α × Option ValueError
  | [], done => (done.reverse, none)
  | block :: rest, done =>
    match e.decode block with
    | .ok a => e.decodeEach rest (a :: done)
    | .error err => (done.reverse, some err)

end ElementCodec

/-! ### Lists of elements -/

/-- How lists of elements are encoded: a plain type as one block, any other type element by element. -/
inductive Codec (α : Type) where
  | block (p : Plain α) (order : ByteOrder)
  | loop (e : ElementCodec α)

namespace Codec

/-- The codec for one element that the list codec stands for. -/
def element {α : Type} : Codec α → ElementCodec α
  | block p order => .plain p order
  | loop e => e

def size {α : Type} (c : Codec α) : Nat := c.element.size

def encodeAll {α : Type} : Codec α → List α → Bytes
  | block p order, vs => order.turn p.size (p.images vs)
  | loop e, vs => e.encodeList vs

def decodeAll {α : Type} : Codec α → Bytes → Except ValueError (List α)
  | block p order, bs => .ok (p.ofImages (order.turn p.size bs))
  | loop e, bs =>
    match e.decodeEach (blocks e.size bs) [] with
    | (vs, none) => .ok vs
    | (_, some err) => .error err

/-- Decodes the given bytes onto the front of `dst`. The elements before one that fails are stored. -/
def decodeOnto {α : Type} (c : Codec α) (bs : Bytes) (dst : List α) : Except ValueError Unit × List α :=
  match c with
  | block p order =>
    let vs := p.ofImages (order.turn p.size bs)
    (.ok (), vs ++ dst.drop vs.length)
  | loop e =>
    let (vs, error?) := e.decodeEach (blocks e.size bs) []
    (match error? with | none => .ok () | some err => .error err, vs ++ dst.drop vs.length)

/-! ### Streams of elements -/

/-- Encodes the elements of one span, taken from the front of those that are left. -/
def encodeSpan {α : Type} (c : Codec α) (span : Span) (left : List α) : Except ValueError Bytes × List α :=
  let count := span.length / c.size
  (.ok (c.encodeAll (left.take count)), left.drop count)

/-- The bytes of `count` elements, as a word holds them. -/
def bytesOf {α : Type} (c : Codec α) (count : Nat) : Except ValueError Nat :=
  if count * c.size ≤ maxWord then .ok (count * c.size) else .error (.invalidLength count)

def stageAll {α : Type} (c : Codec α) (vs : List α) (o : Outlet) : Except ValueError Nat × Outlet :=
  match c.bytesOf vs.length with
  | .error e => (.error e, o)
  | .ok total =>
    let (result, o', _) := o.stage total c.size c.encodeSpan vs
    (result, o')

/-- Writes a list of elements. Memory that is in wire order already goes out as it lies. -/
def writeAll {α : Type} (c : Codec α) (vs : List α) (o : Outlet) : Except ValueError Nat × Outlet :=
  match c with
  | block p .little => o.put (p.images vs)
  | _ => c.stageAll vs o

/-- A destination in the middle of being filled: the elements done, last one first, and those ahead. -/
structure Filling (α : Type) where
  done : List α
  ahead : List α

def decodeSpan {α : Type} (c : Codec α) (span : Span) (bs : Bytes) (f : Filling α) :
    Except ValueError Unit × Filling α :=
  let count := span.length / c.size
  let (result, here) := c.decodeOnto bs (f.ahead.take count)
  (result, ⟨here.reverse ++ f.done, f.ahead.drop count⟩)

def unstageOnto {α : Type} (c : Codec α) (dst : List α) (i : Inlet) :
    Except ValueError Nat × Inlet × List α :=
  match c.bytesOf dst.length with
  | .error e => (.error e, i, dst)
  | .ok total =>
    let (result, i', f) := i.stage total c.size c.decodeSpan ⟨[], dst⟩
    (result, i', f.done.reverse ++ f.ahead)

/-- Fills the memory of `dst` with bytes and turns it once it is full. A read that fails leaves wire bytes. -/
def fillMemory {α : Type} (p : Plain α) (order : ByteOrder) (dst : List α) (i : Inlet) :
    Except ValueError Nat × Inlet × List α :=
  let want := dst.length * p.size
  let got := i.source.fill want
  let i' := { i with source := got.source }
  let touched := p.ofImages (overwrite (p.images dst) 0 got.bytes)
  match got.error? with
  | some e => (.error (.io e), i', touched)
  | none =>
    if got.bytes.length < want then
      (.error (.truncatedStream want got.bytes.length got.bytes.length), i', touched)
    else (.ok want, i', p.ofImages (order.turn p.size got.bytes))

def readOnto {α : Type} (c : Codec α) (dst : List α) (i : Inlet) : Except ValueError Nat × Inlet × List α :=
  match c with
  | block p order => fillMemory p order dst i
  | loop _ => c.unstageOnto dst i

end Codec

end MessageWire
