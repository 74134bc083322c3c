import MessageWire.Proofs.Value.Elements
import MessageWire.Value.Catalog
/-!
# Memory of either byte order

A machine keeps the words of an array one after the other, and the bytes of each word in its own order. Plain elements
go out as they lie in memory, on a big-endian machine with the bytes of every element turned. An element of one word
comes out as on a little-endian machine. In an element of several words the turn also exchanges the words, so a
big-endian machine writes, and reads, arrays the other way round (`Scalar.turn_memory`).
-/

namespace MessageWire

/-! ### Memory -/

/-- The bytes of a word, least significant first, as they lie in memory of the given order. -/
def ByteOrder.arrange : ByteOrder → Bytes → Bytes
  | .little, bs => bs
  | .big, bs => bs.reverse

theorem ByteOrder.length_arrange (order : ByteOrder) (bs : Bytes) : (order.arrange bs).length = bs.length := by
  cases order with
  | little => rfl
  | big => exact List.length_reverse

theorem ByteOrder.arrange_arrange (order : ByteOrder) (bs : Bytes) : order.arrange (order.arrange bs) = bs := by
  cases order with
  | little => rfl
  | big => exact List.reverse_reverse bs

/-- Words of `width` bytes in the memory of a machine. -/
def Plain.wordOn (order : ByteOrder) (width : Nat) : Plain (BitVec (8 * width)) where
  size := width
  image v := order.arrange ((word width).image v)
  ofImage bs := (word width).ofImage (order.arrange bs)
  length_image v := by rw [order.length_arrange, (word width).length_image, word]
  ofImage_image v := by rw [order.arrange_arrange, (word width).ofImage_image]
  image_ofImage bs hlen := by
    rw [(word width).image_ofImage _ (by rw [order.length_arrange, hlen, word]), order.arrange_arrange]

/-- Arrays of `n` numbers in the memory of a machine. -/
def Scalar.memory (s : Scalar) (n : Nat) (order : ByteOrder) : Plain (Vector s.Word n) :=
  .array (.wordOn order s.width) n

/-! ### Turned memory -/

namespace Plain

variable {α : Type} {p q : Plain α} {exchange : α → α}

theorem images_injective (hpos : 0 < p.size) {vs ws : List α} (h : p.images vs = p.images ws) : vs = ws := by
  rw [← p.ofImages_images hpos vs, h, p.ofImages_images hpos]

/-- Turned memory of the one kind is memory of the other, where it holds `exchange v` in place of `v`. -/
structure TurnsInto (p q : Plain α) (exchange : α → α) : Prop where
  size : q.size = p.size
  image : ∀ v, ByteOrder.big.turn p.size (p.image v) = q.image (exchange v)
  back : ∀ v, exchange (exchange v) = v

theorem TurnsInto.images (h : p.TurnsInto q exchange) (vs : List α) :
    ByteOrder.big.turn p.size (p.images vs) = q.images (vs.map exchange) := by
  have heach : ByteOrder.big.turn p.size (p.images vs) = vs.flatMap fun v => ByteOrder.big.turn p.size (p.image v) :=
    Codec.encodeAll_eq (.block p .big) vs
  rw [heach, Plain.images, List.flatMap_map]
  simp only [h.image]

theorem TurnsInto.ofImage (h : p.TurnsInto q exchange) {block : Bytes} (hlen : block.length = p.size) :
    p.ofImage (ByteOrder.big.turn p.size block) = exchange (q.ofImage block) := by
  have hblock : ByteOrder.big.turn p.size (p.image (exchange (q.ofImage block))) = block := by
    rw [h.image, h.back, q.image_ofImage block (by rw [hlen, h.size])]
  have hback := turn_turn .big (p.length_image (exchange (q.ofImage block)))
  rw [hblock] at hback
  rw [hback, p.ofImage_image]

theorem TurnsInto.ofImages (h : p.TurnsInto q exchange) (bs : Bytes) :
    p.ofImages (ByteOrder.big.turn p.size bs) = (q.ofImages bs).map exchange := by
  rw [Plain.ofImages, Plain.ofImages, h.size, List.map_map]
  by_cases hpos : 0 < p.size
  · rw [blocks_turn .big hpos, List.map_map]
    exact List.map_congr_left fun block hblock => h.ofImage (length_of_mem_blocks hblock)
  -- Elements of no bytes: there are none in any bytes.
  · rw [blocks, blocks, Nat.eq_zero_of_not_pos hpos, Nat.div_zero, Nat.div_zero]
    rfl

theorem TurnsInto.decodeAll (h : p.TurnsInto q exchange) (bs : Bytes) :
    (Codec.block p .big).decodeAll bs = ((Codec.block q .little).decodeAll bs).map (·.map exchange) :=
  congrArg Except.ok (h.ofImages bs)

end Plain

/-! ### Words and arrays of words -/

theorem Plain.turnsInto_word (width : Nat) : (wordOn .big width).TurnsInto (wordOn .little width) id where
  size := rfl
  image v := by
    have hturn : ByteOrder.big.turn width ((wordOn .big width).image v) = ((wordOn .big width).image v).reverse :=
      reverseBlocks_of_length ((wordOn .big width).length_image v)
    exact hturn.trans (List.reverse_reverse _)
  back _ := rfl

namespace Scalar

variable {s : Scalar} {n : Nat}

/-- An array that is read from its end backwards is its words from the last to the first, each from its end. -/
theorem turnsInto_memory : (s.memory n .big).TurnsInto (s.memory n .little) Vector.reverse where
  size := rfl
  image v := by
    have hturn : ByteOrder.big.turn (s.memory n .big).size ((s.memory n .big).image v)
        = ((s.memory n .big).image v).reverse := reverseBlocks_of_length ((s.memory n .big).length_image v)
    have himage (order : ByteOrder) (w : Vector s.Word n) :
        (s.memory n order).image w = w.toList.flatMap fun x => order.arrange ((Plain.word s.width).image x) := rfl
    rw [hturn, himage, himage, List.reverse_flatMap, Vector.toList_reverse]
    congr 1
    funext x
    exact List.reverse_reverse _
  back := Vector.reverse_reverse

theorem reverse_of_le_one (hn : n ≤ 1) (v : Vector s.Word n) : v.reverse = v := by
  apply Vector.ext
  intro i hi
  rw [Vector.getElem_reverse]
  congr 1
  omega

theorem exists_reverse_ne (hn : 2 ≤ n) : ∃ v : Vector s.Word n, v.reverse ≠ v := by
  refine ⟨.ofFn fun i => if i.val = 0 then 1 else 0, fun h => ?_⟩
  have hfirst := congrArg (·[0]) h
  simp only [Vector.getElem_reverse, Vector.getElem_ofFn] at hfirst
  rw [if_neg (by omega), if_pos trivial] at hfirst
  have hzero : (0 : s.Word) ≠ 1 := by cases s <;> decide
  exact hzero hfirst

theorem turn_eq_iff (vs : List (Vector s.Word n)) :
    ByteOrder.big.turn (s.memory n .big).size ((s.memory n .big).images vs) = (s.memory n .little).images vs
      ↔ ∀ v ∈ vs, v.reverse = v := by
  rw [turnsInto_memory.images]
  constructor
  · intro h
    by_cases hn : n ≤ 1
    · exact fun v _ => reverse_of_le_one hn v
    · have hpos : 0 < (s.memory n .little).size := Nat.mul_pos (by omega) s.width_pos
      apply List.map_eq_map_iff.mp
      rw [Plain.images_injective hpos h, List.map_id']
  · intro h
    rw [List.map_congr_left h, List.map_id']

/-- **Numbers come out the same on every machine, arrays the other way round**, unless they read the same from both
ends. -/
theorem turn_memory (s : Scalar) (n : Nat) :
    let big := s.memory n .big
    let little := s.memory n .little
    (∀ vs, ByteOrder.big.turn big.size (big.images vs) = little.images (vs.map Vector.reverse))
      ∧ (∀ vs, ByteOrder.big.turn big.size (big.images vs) = little.images vs ↔ ∀ v ∈ vs, v.reverse = v)
      ∧ ((∀ vs, ByteOrder.big.turn big.size (big.images vs) = little.images vs) ↔ n ≤ 1)
      ∧ (∀ bs, (Codec.block big .big).decodeAll bs
        = ((Codec.block little .little).decodeAll bs).map (·.map Vector.reverse))
      ∧ (∀ ws, (Codec.block (.wordOn .big s.width) .big).encodeAll ws
        = (Codec.block (.wordOn .little s.width) .little).encodeAll ws)
      ∧ ∀ bs, (Codec.block (.wordOn .big s.width) .big).decodeAll bs
        = (Codec.block (.wordOn .little s.width) .little).decodeAll bs := by
  intro big little
  refine ⟨turnsInto_memory.images, turn_eq_iff, ⟨fun hall => ?_, fun hn vs => ?_⟩, turnsInto_memory.decodeAll,
    fun ws => ?_, fun bs => ?_⟩
  · apply Nat.le_of_not_lt
    intro hn
    obtain ⟨v, hv⟩ := exists_reverse_ne (s := s) hn
    exact hv ((turn_eq_iff [v]).mp (hall [v]) v List.mem_cons_self)
  · exact (turn_eq_iff vs).mpr fun v _ => reverse_of_le_one hn v
  · have hwords := (Plain.turnsInto_word s.width).images ws
    rw [List.map_id] at hwords
    exact hwords
  · rw [(Plain.turnsInto_word s.width).decodeAll bs]
    show Except.ok (List.map id _) = _
    rw [List.map_id]
    rfl

/-- Machines of different byte order, which have each made the array type known, do not write the same. -/
theorem turn_memory_of_three_words :
    let big := Scalar.memory .u16 3 .big
    let little := Scalar.memory .u16 3 .little
    let written (order : ByteOrder) : Except ValueError Bytes := do
      let c ← (Catalog.ofSettings { hostOrder := order }).registerPlain (.array .u16 3) (Scalar.memory .u16 3 order)
        (by cases order <;> decide)
      (c.toBytes (.array .u16 3) #v[1, 2, 3]).1
    big.images [#v[1, 2, 3]] = [0, 1, 0, 2, 0, 3] ∧ little.images [#v[1, 2, 3]] = [1, 0, 2, 0, 3, 0]
      ∧ ByteOrder.big.turn big.size (big.images [#v[1, 2, 3]]) ≠ little.images [#v[1, 2, 3]]
      ∧ written .big = .ok [3, 0, 2, 0, 1, 0] ∧ written .little = .ok [1, 0, 2, 0, 3, 0] := by
  intro big little written
  exact ⟨by decide, by decide, by decide, rfl, rfl⟩

end Scalar

end MessageWire
