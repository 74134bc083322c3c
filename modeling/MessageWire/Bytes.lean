/-!
# Byte strings

Everything on the wire is a list of bytes. This module holds the operations on byte strings that the
rest is built from: little-endian numbers, writing into a fixed destination, cutting into equal blocks,
and reversing the bytes of every block, which is how memory of the other byte order becomes wire order.

The laws beside the definitions are the view the rest relies on: a little-endian number reads back, a
list cut into blocks is nothing but its blocks, and reversing blocks twice changes nothing.
-/

namespace MessageWire

abbrev Bytes := List UInt8

def maxCapacity : Nat := 0x7fffffffffffffff

/-! ### Little-endian numbers -/

/-- The `width` low bytes of `n`, least significant first; higher bytes are dropped. -/
def littleEndian : (width n : Nat) → Bytes
  | 0, _ => []
  | width + 1, n => UInt8.ofNat n :: littleEndian width (n / 256)

def ofLittleEndian : Bytes → Nat
  | [] => 0
  | b :: bs => b.toNat + 256 * ofLittleEndian bs

@[simp] theorem length_littleEndian (width n : Nat) : (littleEndian width n).length = width := by
  induction width generalizing n with
  | zero => rfl
  | succ width ih => simp [littleEndian, ih]

theorem one_shiftLeft_succ (width : Nat) : 1 <<< (8 * (width + 1)) = 256 * 1 <<< (8 * width) := by
  rw [Nat.one_shiftLeft, Nat.one_shiftLeft, Nat.mul_succ, Nat.pow_add, Nat.mul_comm]

theorem ofLittleEndian_lt (bs : Bytes) : ofLittleEndian bs < 1 <<< (8 * bs.length) := by
  induction bs with
  | nil => simp [ofLittleEndian]
  | cons b bs ih =>
    have hb : b.toNat < 256 := b.toNat_lt
    rw [ofLittleEndian, List.length_cons, one_shiftLeft_succ]
    omega

theorem ofLittleEndian_littleEndian (width n : Nat) :
    ofLittleEndian (littleEndian width n) = n % 1 <<< (8 * width) := by
  induction width generalizing n with
  | zero => simp [littleEndian, ofLittleEndian, Nat.mod_one]
  | succ width ih =>
    rw [littleEndian, ofLittleEndian, ih, one_shiftLeft_succ, Nat.mod_mul, UInt8.toNat_ofNat']

theorem littleEndian_ofLittleEndian (bs : Bytes) :
    littleEndian bs.length (ofLittleEndian bs) = bs := by
  induction bs with
  | nil => rfl
  | cons b bs ih =>
    have hb : b.toNat < 256 := b.toNat_lt
    have hlow : UInt8.ofNat (b.toNat + 256 * ofLittleEndian bs) = b := by
      apply UInt8.toNat_inj.mp
      rw [UInt8.toNat_ofNat']
      omega
    have hhigh : (b.toNat + 256 * ofLittleEndian bs) / 256 = ofLittleEndian bs := by omega
    rw [List.length_cons, littleEndian, ofLittleEndian, hlow, hhigh, ih]

/-! ### Lengths -/

/-- Whether a list has at least `n` members, found without looking past the first `n`. -/
def reaches {α : Type} : Nat → List α → Bool
  | 0, _ => true
  | _ + 1, [] => false
  | n + 1, _ :: rest => reaches n rest

theorem reaches_iff {α : Type} (n : Nat) (xs : List α) : reaches n xs = true ↔ n ≤ xs.length := by
  induction n generalizing xs with
  | zero => simp [reaches]
  | succ n ih => cases xs <;> simp [reaches, ih]

/-! ### Writing into a destination -/

/-- `buffer` with `data` in place of the bytes from `start` on; the length is that of `buffer`
whenever `data` fits there. -/
def overwrite (buffer : Bytes) (start : Nat) (data : Bytes) : Bytes :=
  buffer.take start ++ data ++ buffer.drop (start + data.length)

theorem length_overwrite {buffer data : Bytes} {start : Nat} (h : start + data.length ≤ buffer.length) :
    (overwrite buffer start data).length = buffer.length := by
  simp only [overwrite, List.length_append, List.length_take, List.length_drop]
  omega

/-! ### Blocks -/

/-- The first `count` blocks of `size` members, put after the blocks in `done`, which are kept last
block first. -/
def blocksOnto {α : Type} (size : Nat) : Nat → List α → List (List α) → List (List α)
  | 0, _, done => done.reverse
  | count + 1, xs, done => blocksOnto size count (xs.drop size) (xs.take size :: done)

/-- The first `count` blocks of `size` members; a list that is too short ends in short blocks. -/
def firstBlocks {α : Type} (size count : Nat) (xs : List α) : List (List α) := blocksOnto size count xs []

/-- The whole blocks of `size` members that a list starts with; a shorter remainder is left out. -/
def blocks {α : Type} (size : Nat) (xs : List α) : List (List α) := firstBlocks size (xs.length / size) xs

theorem blocksOnto_eq {α : Type} (size count : Nat) (xs : List α) (done : List (List α)) :
    blocksOnto size count xs done = done.reverse ++ firstBlocks size count xs := by
  induction count generalizing xs done with
  | zero => simp [firstBlocks, blocksOnto]
  | succ count ih =>
    rw [firstBlocks, blocksOnto, ih, blocksOnto, ih (xs.drop size) [xs.take size]]
    simp

@[simp] theorem firstBlocks_zero {α : Type} (size : Nat) (xs : List α) : firstBlocks size 0 xs = [] := rfl

@[simp] theorem firstBlocks_succ {α : Type} (size count : Nat) (xs : List α) :
    firstBlocks size (count + 1) xs = xs.take size :: firstBlocks size count (xs.drop size) := by
  rw [firstBlocks, blocksOnto, blocksOnto_eq]
  simp

@[simp] theorem length_firstBlocks {α : Type} (size count : Nat) (xs : List α) :
    (firstBlocks size count xs).length = count := by
  induction count generalizing xs with
  | zero => rfl
  | succ count ih => simp [ih]

/-- The members of a list, block by block, are the list up to the end of those blocks. -/
theorem flatten_firstBlocks {α : Type} (size count : Nat) (xs : List α) :
    (firstBlocks size count xs).flatten = xs.take (count * size) := by
  induction count generalizing xs with
  | zero => simp
  | succ count ih =>
    rw [firstBlocks_succ, List.flatten_cons, ih, Nat.succ_mul, Nat.add_comm, List.take_add]

theorem length_of_mem_firstBlocks {α : Type} {size count : Nat} {xs block : List α}
    (hle : count * size ≤ xs.length) (h : block ∈ firstBlocks size count xs) : block.length = size := by
  induction count generalizing xs with
  | zero => simp at h
  | succ count ih =>
    rw [Nat.succ_mul] at hle
    rcases List.mem_cons.mp (firstBlocks_succ size count xs ▸ h) with rfl | hrest
    · rw [List.length_take]
      omega
    · exact ih (by rw [List.length_drop]; omega) hrest

/-- Cutting the joined encodings of a list gives the encodings back, if each is one block long. -/
theorem firstBlocks_flatMap {α β : Type} {size : Nat} (f : α → List β) (hlen : ∀ a, (f a).length = size)
    (xs : List α) : firstBlocks size xs.length (xs.flatMap f) = xs.map f := by
  induction xs with
  | nil => rfl
  | cons x xs ih =>
    rw [List.length_cons, List.flatMap_cons, firstBlocks_succ, List.take_left' (hlen x),
      List.drop_left' (hlen x), ih, List.map_cons]

theorem blocks_of_lt {α : Type} {size : Nat} {xs : List α} (h : xs.length < size) : blocks size xs = [] := by
  simp [blocks, Nat.div_eq_of_lt h]

theorem blocks_append {α : Type} {size : Nat} {block : List α} (rest : List α) (hpos : 0 < size)
    (hlen : block.length = size) : blocks size (block ++ rest) = block :: blocks size rest := by
  have hcount : (block ++ rest).length / size = rest.length / size + 1 := by
    rw [List.length_append, hlen, Nat.add_div_left _ hpos]
  rw [blocks, hcount, firstBlocks_succ, List.take_left' hlen, List.drop_left' hlen, blocks]

theorem flatten_blocks {α : Type} (size : Nat) (xs : List α) :
    (blocks size xs).flatten = xs.take (xs.length / size * size) :=
  flatten_firstBlocks _ _ _

theorem length_of_mem_blocks {α : Type} {size : Nat} {xs block : List α} (h : block ∈ blocks size xs) :
    block.length = size :=
  length_of_mem_firstBlocks (Nat.div_mul_le_self _ _) h

theorem blocks_flatMap {α β : Type} {size : Nat} (hpos : 0 < size) (f : α → List β)
    (hlen : ∀ a, (f a).length = size) (xs : List α) : blocks size (xs.flatMap f) = xs.map f := by
  have hcount : (xs.flatMap f).length / size = xs.length := by
    have hlength : (xs.flatMap f).length = xs.length * size := by
      induction xs with
      | nil => simp
      | cons x xs ih =>
        rw [List.flatMap_cons, List.length_append, hlen, ih, List.length_cons, Nat.succ_mul, Nat.add_comm]
    rw [hlength, Nat.mul_div_cancel _ hpos]
  rw [blocks, hcount, firstBlocks_flatMap f hlen]

/-! ### Byte order -/

/-- The order in which a machine keeps the bytes of a number in memory. The wire is little-endian. -/
inductive ByteOrder where
  | little
  | big
  deriving DecidableEq

/-- Whether memory of this order has to be turned around to become wire bytes. -/
def ByteOrder.swaps : ByteOrder → Bool
  | .little => false
  | .big => true

/-- The bytes with every whole block of `size` reversed. A remainder that fills no block stays, and
blocks of one byte have nothing to reverse. -/
def reverseBlocks (size : Nat) (bytes : Bytes) : Bytes :=
  if size < 2 then bytes
  else (blocks size bytes).flatMap List.reverse ++ bytes.drop (bytes.length / size * size)

/-- Memory of the given order as wire bytes, or back: the bytes of every element are reversed unless the order is that
of the wire. -/
def ByteOrder.turn (order : ByteOrder) (size : Nat) (bytes : Bytes) : Bytes :=
  if order.swaps then reverseBlocks size bytes else bytes

theorem length_flatMap_reverse (xss : List Bytes) :
    (xss.flatMap List.reverse).length = xss.flatten.length := by
  induction xss with
  | nil => rfl
  | cons xs xss ih => simp only [List.flatMap_cons, List.flatten_cons, List.length_append, List.length_reverse, ih]

@[simp] theorem length_reverseBlocks (size : Nat) (bytes : Bytes) :
    (reverseBlocks size bytes).length = bytes.length := by
  unfold reverseBlocks
  split
  · rfl
  · have hle : bytes.length / size * size ≤ bytes.length := Nat.div_mul_le_self _ _
    simp only [List.length_append, length_flatMap_reverse, flatten_blocks, List.length_take, List.length_drop]
    omega

@[simp] theorem length_turn (order : ByteOrder) (size : Nat) (bytes : Bytes) :
    (order.turn size bytes).length = bytes.length := by
  unfold ByteOrder.turn
  split <;> simp

/-- Reversal of blocks works on the first block and the rest apart. -/
theorem reverseBlocks_append {size : Nat} {block : Bytes} (rest : Bytes) (hlen : block.length = size)
    (hsize : 2 ≤ size) : reverseBlocks size (block ++ rest) = block.reverse ++ reverseBlocks size rest := by
  have hpos : 0 < size := by omega
  have hnot : ¬ size < 2 := by omega
  have hcount : (block ++ rest).length / size = rest.length / size + 1 := by
    rw [List.length_append, hlen, Nat.add_div_left _ hpos]
  have hdrop : (block ++ rest).drop ((rest.length / size + 1) * size)
      = rest.drop (rest.length / size * size) := by
    rw [Nat.succ_mul, Nat.add_comm, ← List.drop_drop, List.drop_left' hlen]
  simp only [reverseBlocks, if_neg hnot, blocks_append rest hpos hlen, hcount, hdrop, List.flatMap_cons,
    List.append_assoc]

theorem reverseBlocks_of_length {size : Nat} {block : Bytes} (hlen : block.length = size) :
    reverseBlocks size block = block.reverse := by
  by_cases hsize : size < 2
  · match block, hlen with
    | [], _ => simp [reverseBlocks, hsize]
    | [b], _ => simp [reverseBlocks, hsize]
    | _ :: _ :: rest, hlen =>
      simp only [List.length_cons] at hlen
      omega
  · have happend := reverseBlocks_append [] hlen (by omega)
    simpa [reverseBlocks, hsize, blocks_of_lt (show ([] : Bytes).length < size by simp; omega)] using happend

theorem turn_turn (order : ByteOrder) {size : Nat} {block : Bytes} (hlen : block.length = size) :
    order.turn size (order.turn size block) = block := by
  cases order with
  | little => rfl
  | big =>
    have hrev : block.reverse.length = size := by simpa using hlen
    simp [ByteOrder.turn, ByteOrder.swaps, reverseBlocks_of_length hlen, reverseBlocks_of_length hrev]

/-! ### Addresses -/

/-- Whether an address is a multiple of an alignment; every address is aligned to at most one byte. -/
def isAligned (address align : Nat) : Bool :=
  align ≤ 1 || address % align == 0

end MessageWire
