import MessageWire.Proofs.Value.Growing
/-!
# Elements in their slots

A list of elements is encoded into a destination, and decoded onto one, slot by slot: the slots are blocks of one
element's size, and a loop goes along the elements and the blocks at once. Plain elements go in one piece instead, by a
copy of memory that is turned as a whole afterwards. Both are told here with the destination they store into, and
where elements and bytes are of one length, which is how they are called, both come to what `Codec.encodeAll`,
`Codec.decodeOnto` and `Codec.decodeBehind` say.

What is decoded onto a destination is a front part of it, also if an element fails (`Codec.exists_decodeOnto`).
-/

namespace MessageWire

variable {α : Type}

/-! ### Loops over slots -/

namespace ElementCodec

variable (e : ElementCodec α)

/-- Encodes elements into the slots of a destination, as long as there are both. -/
def encodeOnto : List α → Bytes → Bytes
  | [], dst => dst
  | v :: vs, dst => if dst.length < e.size then dst else e.encode v ++ encodeOnto vs (dst.drop e.size)

/-- Decodes the slots of a source onto the members of a destination, as long as there are both. The members before a
slot that fails are stored. -/
def decodeOnto : Bytes → List α → Except ValueError Unit × List α
  | _, [] => (.ok (), [])
  | src, v :: dst =>
    if src.length < e.size then (.ok (), v :: dst)
    else
      match e.decode (src.take e.size) with
      | .error err => (.error err, v :: dst)
      | .ok a =>
        let (result, dst') := decodeOnto (src.drop e.size) dst
        (result, a :: dst')

variable {e}

theorem encodeOnto_of_length {vs : List α} {dst : Bytes} (hlen : dst.length = vs.length * e.size) :
    e.encodeOnto vs dst = e.encodeList vs := by
  induction vs generalizing dst with
  | nil =>
    rw [List.length_nil, Nat.zero_mul] at hlen
    exact List.eq_nil_of_length_eq_zero hlen
  | cons v vs ih =>
    rw [List.length_cons, Nat.succ_mul] at hlen
    have hrest : (dst.drop e.size).length = vs.length * e.size := by
      rw [List.length_drop]
      omega
    rw [encodeOnto, if_neg (by omega), ih hrest]
    rfl

theorem decodeEach_onto (bss : List Bytes) (done : List α) :
    e.decodeEach bss done = (done.reverse ++ (e.decodeEach bss []).1, (e.decodeEach bss []).2) := by
  induction bss generalizing done with
  | nil => simp [decodeEach]
  | cons bs bss ih =>
    cases hdecode : e.decode bs with
    | error err => simp [decodeEach, hdecode]
    | ok a =>
      simp only [decodeEach, hdecode]
      rw [ih (a :: done), ih [a]]
      simp

theorem length_decodeEach_le (bss : List Bytes) : (e.decodeEach bss []).1.length ≤ bss.length := by
  induction bss with
  | nil => simp [decodeEach]
  | cons bs bss ih =>
    cases hdecode : e.decode bs with
    | error err => simp [decodeEach, hdecode]
    | ok a =>
      rw [decodeEach]
      simp only [hdecode]
      rw [decodeEach_onto]
      simpa using ih

theorem decodeOnto_of_length (hpos : 0 < e.size) {src : Bytes} {dst : List α}
    (hlen : src.length = dst.length * e.size) :
    e.decodeOnto src dst = (Codec.loop e).decodeOnto src dst := by
  induction dst generalizing src with
  | nil =>
    rw [List.length_nil, Nat.zero_mul] at hlen
    obtain rfl := List.eq_nil_of_length_eq_zero hlen
    have hnone : blocks e.size ([] : Bytes) = [] := blocks_of_lt hpos
    simp [decodeOnto, Codec.decodeOnto, hnone, decodeEach]
  | cons v dst ih =>
    rw [List.length_cons, Nat.succ_mul] at hlen
    have hfirst : (src.take e.size).length = e.size := by
      rw [List.length_take]
      omega
    have hrest : (src.drop e.size).length = dst.length * e.size := by
      rw [List.length_drop]
      omega
    have hblocks := blocks_append (src.drop e.size) hpos hfirst
    rw [List.take_append_drop] at hblocks
    rw [decodeOnto, if_neg (by omega), ih hrest]
    simp only [Codec.decodeOnto, hblocks, decodeEach]
    cases hdecode : e.decode (src.take e.size) with
    | error err => simp
    | ok a =>
      simp only
      rw [decodeEach_onto _ [a]]
      simp

end ElementCodec

/-! ### Copies of memory -/

theorem overwrite_all {buffer data : Bytes} (hlen : data.length = buffer.length) : overwrite buffer 0 data = data := by
  rw [overwrite, List.take_zero, List.nil_append, Nat.zero_add, List.drop_of_length_le (Nat.le_of_eq hlen.symm),
    List.append_nil]

namespace Plain

variable (p : Plain α) (order : ByteOrder)

/-- Copies the memory of elements into a destination and turns it there. -/
def copyOnto (vs : List α) (dst : Bytes) : Bytes := order.turn p.size (overwrite dst 0 (p.images vs))

/-- Copies bytes into the memory of a destination and turns it there. -/
def loadOnto (src : Bytes) (dst : List α) : List α :=
  p.ofImages (order.turn p.size (overwrite (p.images dst) 0 src))

def zeroed : α := p.ofImage (List.replicate p.size 0)

/-- Makes room for more elements behind those of a list, and copies bytes into its memory. -/
def loadBehind (src : Bytes) (out : List α) : List α :=
  let grown := out ++ List.replicate (src.length / p.size) p.zeroed
  grown.take out.length ++ p.loadOnto order src (grown.drop out.length)

variable {p order}

theorem copyOnto_of_length {vs : List α} {dst : Bytes} (hlen : dst.length = vs.length * p.size) :
    p.copyOnto order vs dst = (Codec.block p order).encodeAll vs := by
  rw [copyOnto, overwrite_all (by rw [length_images, hlen])]
  rfl

theorem loadOnto_of_length {src : Bytes} {dst : List α} (hlen : src.length = dst.length * p.size) :
    p.loadOnto order src dst = p.ofImages (order.turn p.size src) := by
  rw [loadOnto, overwrite_all (by rw [length_images, hlen])]

theorem loadBehind_of_dvd {src : Bytes} (hwhole : p.size ∣ src.length) (out : List α) :
    p.loadBehind order src out = out ++ p.ofImages (order.turn p.size src) := by
  have hlen : src.length = (List.replicate (src.length / p.size) p.zeroed).length * p.size := by
    rw [List.length_replicate, Nat.div_mul_cancel hwhole]
  rw [loadBehind]
  simp only [List.take_left, List.drop_left]
  rw [loadOnto_of_length hlen]

theorem length_ofImages (p : Plain α) (bs : Bytes) : (p.ofImages bs).length = bs.length / p.size := by
  rw [ofImages, List.length_map, blocks, length_firstBlocks]

end Plain

/-! ### Destinations -/

namespace Codec

/-- Decodes the given bytes into the slots of `dst`. -/
def decodeSlots (c : Codec α) (bs : Bytes) (dst : List α) : Except ValueError Unit × List α :=
  match c with
  | block p order => (.ok (), p.loadOnto order bs dst)
  | loop e => e.decodeOnto bs dst

variable {c : Codec α} {bs : Bytes} {dst : List α}

/-- What is decoded onto a destination, whatever that is: no more elements than the bytes have. -/
theorem exists_decodeOnto (c : Codec α) (bs : Bytes) :
    ∃ result vs, vs.length ≤ bs.length / c.size
      ∧ ∀ dst, c.decodeOnto bs dst = (result, vs ++ dst.drop vs.length) := by
  cases c with
  | block p order =>
    refine ⟨.ok (), p.ofImages (order.turn p.size bs), ?_, fun dst => rfl⟩
    rw [Plain.length_ofImages, length_turn]
    exact Nat.le_refl _
  | loop e =>
    have hle := e.length_decodeEach_le (blocks e.size bs)
    rw [blocks, length_firstBlocks, ← blocks] at hle
    exact ⟨_, _, hle, fun dst => rfl⟩

theorem length_decodeOnto (hpos : 0 < c.size) (hlen : bs.length = dst.length * c.size) :
    (c.decodeOnto bs dst).2.length = dst.length := by
  obtain ⟨result, vs, hle, honto⟩ := c.exists_decodeOnto bs
  rw [hlen, Nat.mul_div_cancel _ hpos] at hle
  rw [honto, List.length_append, List.length_drop]
  omega

theorem decodeOnto_append (hpos : 0 < c.size) (hlen : bs.length = dst.length * c.size) (behind : List α) :
    c.decodeOnto bs (dst ++ behind) = ((c.decodeOnto bs dst).1, (c.decodeOnto bs dst).2 ++ behind) := by
  obtain ⟨result, vs, hle, honto⟩ := c.exists_decodeOnto bs
  rw [hlen, Nat.mul_div_cancel _ hpos] at hle
  rw [honto, honto, List.drop_append_of_le_length hle, List.append_assoc]

theorem decodeSlots_of_length (hpos : 0 < c.size) (hlen : bs.length = dst.length * c.size) :
    c.decodeSlots bs dst = c.decodeOnto bs dst := by
  cases c with
  | loop e => exact ElementCodec.decodeOnto_of_length hpos hlen
  | block p order =>
    have hcount : (p.ofImages (order.turn p.size bs)).length = dst.length := by
      rw [Plain.length_ofImages, length_turn, hlen]
      exact Nat.mul_div_cancel _ hpos
    simp only [decodeSlots, decodeOnto, hcount, List.drop_length, List.append_nil]
    rw [Plain.loadOnto_of_length hlen]

end Codec

end MessageWire
