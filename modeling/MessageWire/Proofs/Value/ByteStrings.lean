import MessageWire.Proofs.Value.BlockCopy
import MessageWire.Proofs.Value.Canonical
/-!
# Byte strings, texts and lists of bytes

A byte string has an encoding of its own, and so has a list whose elements are bytes; a text is written as the byte
string of its UTF-8 form. All three are one encoding (`Format.bytes_eq_byteList`), though byte strings are read in one
piece and lists through staging, which must have room for its buffers (`Format.bytes_ne_byteList`).

The two differ only in what they tell of a stream that ends inside the bytes: both count what was taken, but how much
was expected at a time is up to the staging (`Format.SameRead`).
-/

namespace MessageWire

variable {α β : Type}

namespace CountHeader

theorem classWidth_le (k : Nat) : classWidth k ≤ 4 := by
  unfold classWidth
  split
  all_goals decide

theorem size_le_of_read {src : Bytes} {header : CountHeader} (h : read src = .ok header) : header.size ≤ maxSize := by
  obtain ⟨flag, rest, rfl, ⟨-, rfl⟩ | ⟨-, -, hsize, -⟩⟩ := read_eq_ok h
  · decide
  · rw [hsize]
    exact Nat.add_le_add_left (classWidth_le _) 1

theorem sizeFor_le_maxSize (count : Nat) : sizeFor count ≤ maxSize := Nat.add_le_add_left (classWidth_le _) 1

end CountHeader

/-- A header and as many bytes as it may count are fewer than the largest word. -/
theorem add_lt_maxWord {size count : Nat} (hsize : size ≤ CountHeader.maxSize)
    (hcount : count ≤ CountHeader.maxCount) :
    size + count < maxWord :=
  Nat.lt_of_le_of_lt (Nat.add_le_add hsize hcount) (by decide)

namespace Format

/-! ### Lists of bytes -/

/-- Collections of bytes, which are words of one byte each. -/
def byteCollection (order : ByteOrder) : Collection Scalar.u8.Word :=
  ⟨.block (.word Scalar.u8.width) order, Scalar.width_pos .u8⟩

def byteList (order : ByteOrder) (limits : StagingLimits) : Format (List Scalar.u8.Word) :=
  collection (Shape.list.holder Scalar.u8.Word) (byteCollection order) limits

def words (bs : Bytes) : List Scalar.u8.Word := bs.map UInt8.toBitVec

variable {order : ByteOrder}

theorem length_words (bs : Bytes) : (words bs).length = bs.length := List.length_map _

theorem turn_byte (order : ByteOrder) (bs : Bytes) : order.turn 1 bs = bs := by
  cases order with
  | little => rfl
  | big => exact if_pos (by decide)

theorem images_words (bs : Bytes) : (Plain.word 1).images (words bs) = bs := by
  induction bs with
  | nil => rfl
  | cons b bs ih =>
    have hbyte : (Plain.word 1).image b.toBitVec = [b] := by
      show [UInt8.ofNat b.toNat] = [b]
      rw [UInt8.ofNat_toNat]
    show (Plain.word 1).image b.toBitVec ++ (Plain.word 1).images (words bs) = b :: bs
    rw [hbyte, ih]
    rfl

theorem encodeAll_words (bs : Bytes) : (byteCollection order).codec.encodeAll (words bs) = bs := by
  show order.turn 1 ((Plain.word 1).images (words bs)) = bs
  rw [turn_byte, images_words]

theorem decodeAll_bytes (bs : Bytes) : (byteCollection order).codec.decodeAll bs = .ok (words bs) := by
  have hback := Codec.decodeAll_encodeAll _ (byteCollection order).size_pos (words bs)
  rwa [encodeAll_words] at hback

theorem listCode_words (bs : Bytes) : listCode (byteCollection order) (words bs) = bytesCode bs := by
  rw [listCode, bytesCode, encodeAll_words, length_words]

/-- As many bytes as a header may count fit into a buffer. -/
theorem length_le_maxCapacity {count : Nat} (h : count ≤ CountHeader.maxCount) :
    count * (byteCollection order).elementSize ≤ maxCapacity := by
  have hone : count * (byteCollection order).elementSize = count := Nat.mul_one count
  rw [hone]
  exact Nat.le_trans h (by decide)

/-! ### Writes -/

variable {limits : StagingLimits} {bs : Bytes}

theorem encodedSize_byteList (h : bs.length ≤ CountHeader.maxCount) :
    (byteList order limits).encodedSize (words bs) = bytes.encodedSize bs := by
  have hsize : (byteCollection order).encodedLength (words bs).length < maxWord := by
    have hword := add_lt_maxWord (CountHeader.sizeFor_le_maxSize bs.length) h
    have hone : bs.length * (byteCollection order).elementSize = bs.length := Nat.mul_one _
    rw [length_words, Collection.encodedLength, hone, saturate_of_le (show bs.length ≤ maxWord by omega),
      saturate_of_le (Nat.le_of_lt hword)]
    exact hword
  have hlist := encodedLength_eq hsize
  rw [listCode_words, length_bytesCode] at hlist
  exact hlist

theorem write_byteList (h : bs.length ≤ CountHeader.maxCount) (dst : Bytes) :
    (byteList order limits).write (words bs) dst = bytes.write bs dst := by
  have hwords : (words bs).length ≤ CountHeader.maxCount := by rwa [length_words]
  show (byteCollection order).writeAll (words bs) dst = writeBytes bs dst
  rw [writeAll_eq _ hwords (StagingLimits.le_maxWord (length_le_maxCapacity hwords)), writeBytes_eq h, listCode_words]

theorem delivers_byteList (hlimits : limits.Allocatable) (h : bs.length ≤ CountHeader.maxCount) (s : Sink) :
    s.Delivers (bytesCode bs) ((byteList order limits).writeTo (words bs) s) := by
  have hwords : (words bs).length ≤ CountHeader.maxCount := by rwa [length_words]
  have hlist : s.Delivers (listCode (byteCollection order) (words bs)) ((byteList order limits).writeTo (words bs) s) :=
    streams_list (Shape.list.holder Scalar.u8.Word) (byteCollection order) hwords hlimits
      (length_le_maxCapacity hwords) s
  rwa [listCode_words] at hlist

/-! ### Reads of buffers -/

/-- A byte string that was read, as a list. -/
def asWords (read : Option Bytes × Nat) : Option (List Scalar.u8.Word) × Nat := (read.1.map words, read.2)

theorem read_byteCollection (src : Bytes) : (byteCollection order).read src = (readBytes src).map asWords := by
  rw [read_collection_eq, readBytes_eq]
  unfold readCounted
  rcases hread : CountHeader.read src with e | ⟨_ | count, size⟩
  · rfl
  · rfl
  · have hone : count * (byteCollection order).elementSize = count := Nat.mul_one count
    have hcount := (CountHeader.sizeFor_le_of_read hread).1
    have hword := add_lt_maxWord (CountHeader.size_le_of_read hread) hcount
    simp only [elementsBody_of_le (StagingLimits.le_maxWord (length_le_maxCapacity hcount)), bytesBody, hone,
      saturate_of_le (Nat.le_of_lt hword)]
    cases behind (size + count) size count src with
    | error e => rfl
    | ok raw =>
      show elementsOf (byteCollection order) (size + count) raw = _
      rw [elementsOf, decodeAll_bytes]
      rfl

theorem read_byteList (src : Bytes) :
    (byteList order limits).read src = (bytes.read src).map fun read => (words read.1, read.2) := by
  show required.present (((byteCollection order).read src).map (optionalCollection.hold _))
    = (required.present (readBytes src)).map _
  rw [read_byteCollection]
  obtain e | ⟨_ | raw, consumed⟩ := readBytes src
  · rfl
  · rfl
  · rfl

/-! ### Texts -/

/-- What a text is read as, next to the byte string with the same bytes: the text of these, if they are UTF-8. -/
inductive ReadText : Except ValueError (Bytes × Nat) → Except ValueError (String × Nat) → Prop
  | text (t : String) (consumed : Nat) : ReadText (.ok (Utf8.encode t, consumed)) (.ok (t, consumed))
  | invalid {raw : Bytes} (consumed : Nat) (reason : String) (none : ∀ t, Utf8.encode t ≠ raw) :
    ReadText (.ok (raw, consumed)) (.error (.invalidValue "String" reason))
  | error (e : ValueError) : ReadText (.error e) (.error e)

theorem readText_asText (read : Except ValueError (Option Bytes × Nat)) :
    ReadText (required.present read) (required.present (asText read)) := by
  obtain e | ⟨_ | raw, consumed⟩ := read
  · exact .error e
  · exact .error _
  · show ReadText (.ok (raw, consumed)) _
    unfold asText
    simp only
    cases htext : Utf8.decode? raw with
    | some t =>
      rw [← Utf8.encode_of_decode? htext]
      exact .text t consumed
    | none =>
      refine .invalid consumed _ fun t ht => ?_
      rw [← ht, Utf8.decode?_encode] at htext
      cases htext

/-! ### Reads of streams -/

/-- Two reads that find the same value, or fail alike: with the same error, or with the end of a stream, which was as
many bytes away for both. -/
inductive SameRead (f : α → β) : Except ValueError (α × Nat) → Except ValueError (β × Nat) → Prop
  | value (a : α) (consumed : Nat) : SameRead f (.ok (a, consumed)) (.ok (f a, consumed))
  | error (e : ValueError) : SameRead f (.error e) (.error e)
  | ended (expected actual expected' actual' consumed : Nat) :
    SameRead f (.error (.truncatedStream expected actual consumed))
      (.error (.truncatedStream expected' actual' consumed))

theorem SameRead.required {f : α → β} {got : Except ValueError (Option α × Nat)}
    {got' : Except ValueError (Option β × Nat)} (h : SameRead (Option.map f) got got') :
    SameRead f (required.present got) (required.present got') := by
  cases h with
  | value a? consumed =>
    cases a? with
    | none => exact .error _
    | some a => exact .value a consumed
  | error e => exact .error e
  | ended expected actual expected' actual' consumed => exact .ended ..

theorem sameRead_body_of_lt {s : Source} (hs : s.Steady) (hlimits : limits.Allocatable) {count : Nat}
    (hcount : count ≤ CountHeader.maxCount) (size : Nat) (hless : s.left.length < count) :
    let got := bytesBodyFrom count size s
    let got' := elementsBodyFrom (byteCollection order) limits count size s
    SameRead (Option.map words) got.1 got'.1 ∧ got'.2.left = got.2.left := by
  have hone : count * (byteCollection order).elementSize = count := Nat.mul_one count
  have htakes : Source.TakesAll (byteCollection order).decodeSpan :=
    Collection.takesAll_decodeSpan (Codec.total_block _ order)
  have htake := hs.exhausted_takeExactly hless
  have hlen : count * (byteCollection order).elementSize ≤ maxCapacity := length_le_maxCapacity hcount
  have hlength := (byteCollection order).bodyLength_of_le (StagingLimits.le_maxWord hlen)
  rw [hone] at hlen hlength
  have hroom := hlimits.allocates hlen (byteCollection order).elementSize
  have hstage := Source.Steady.exhausted_stage htakes (i := ⟨s, limits⟩) hs hroom [] hless
  unfold bytesBodyFrom elementsBodyFrom Collection.readElementsFrom
  rw [hlength]
  simp only
  generalize s.takeExactly count = got at htake ⊢
  generalize Inlet.stage _ _ _ _ _ = got' at hstage ⊢
  obtain ⟨e | raw, s₁⟩ := got
  · obtain ⟨e' | body, i₁, done⟩ := got'
    · obtain ⟨expected, actual, hafter⟩ := htake.eq_after size
      obtain ⟨expected', actual', hafter'⟩ := hstage.eq_after size
      simp only [hafter, hafter']
      exact ⟨.ended .., hstage.left.trans htake.left.symm⟩
    · obtain ⟨⟨_, _, _, herror, -⟩, -⟩ := hstage
      cases herror
  · obtain ⟨⟨_, _, _, herror, -⟩, -⟩ := htake
    cases herror

theorem sameRead_body_of_le {s : Source} (hs : s.Steady) (hlimits : limits.Allocatable) {count : Nat}
    (hcount : count ≤ CountHeader.maxCount) (size : Nat) (hle : count ≤ s.left.length) :
    let got := bytesBodyFrom count size s
    let got' := elementsBodyFrom (byteCollection order) limits count size s
    SameRead (Option.map words) got.1 got'.1 ∧ got'.2.left = got.2.left := by
  have hone : count * (byteCollection order).elementSize = count := Nat.mul_one count
  have htake := hs.agrees_takeExactly count
  have helements := (byteCollection order).agrees_readElementsFrom count (i := ⟨s, limits⟩) hs hlimits
    (fun _ => length_le_maxCapacity hcount)
  have hin : (byteCollection order).elementsIn? count s.left = some (words (s.left.take count)) :=
    Collection.elementsIn?_eq_some_iff.mpr ⟨hle, decodeAll_bytes _⟩
  rw [if_pos hle] at htake
  rw [hone, hin] at helements
  obtain ⟨hgot, -, hleft, -⟩ := htake
  obtain ⟨hgot', -, hleft', -⟩ := helements
  unfold bytesBodyFrom elementsBodyFrom
  generalize s.takeExactly count = got at hgot hleft ⊢
  generalize Collection.readElementsFrom _ _ _ = got' at hgot' hleft' ⊢
  obtain ⟨_, s₁⟩ := got
  obtain ⟨_, i₁⟩ := got'
  cases hgot
  cases hgot'
  exact ⟨.value _ _, hleft'.trans hleft.symm⟩

theorem sameRead_counted (order : ByteOrder) {s : Source} (hs : s.Steady) (hlimits : limits.Allocatable) :
    let got := readCountedFrom bytesBodyFrom s
    let got' := readCountedFrom (elementsBodyFrom (byteCollection order) limits) s
    SameRead (Option.map words) got.1 got'.1 ∧ got'.2.left = got.2.left := by
  unfold readCountedFrom
  rcases hread : CountHeader.readFrom s with ⟨e | ⟨_ | count, size⟩, s'⟩
  · exact ⟨.error e, rfl⟩
  · exact ⟨.value none size, rfl⟩
  · have hs' := (CountHeader.left_of_readFrom hs hread).1
    have hheader := (CountHeader.readFrom_of_steady hs).1
    rw [hread] at hheader
    have hcount := (CountHeader.sizeFor_le_of_read hheader.symm).1
    rcases Nat.lt_or_ge s'.left.length count with hless | hle
    · exact sameRead_body_of_lt hs' hlimits hcount size hless
    · exact sameRead_body_of_le hs' hlimits hcount size hle

theorem map_hold_list (read : Except ValueError (Option (List α) × Nat)) :
    read.map (optionalCollection.hold (Shape.list.holder α)) = read := by
  obtain e | ⟨_ | vs, consumed⟩ := read
  · rfl
  · rfl
  · rfl

/-- From a steady stream a byte string and a list of bytes are the same, and so is what is taken. -/
theorem sameRead_readFrom {s : Source} (hs : s.Steady) (hlimits : limits.Allocatable) :
    SameRead words (bytes.readFrom s).1 ((byteList order limits).readFrom s).1
      ∧ ((byteList order limits).readFrom s).2.left = (bytes.readFrom s).2.left := by
  obtain ⟨hsame, hleft⟩ := sameRead_counted order hs hlimits
  rw [← readFrom_collection_eq (byteCollection order) ⟨s, limits⟩, ← readBytesFrom_eq] at hsame hleft
  refine ⟨?_, hleft⟩
  have hlist := hsame.required
  rw [← map_hold_list ((byteCollection order).readFrom ⟨s, limits⟩).1] at hlist
  exact hlist

/-! ### One encoding -/

/-- **Byte strings, lists of bytes and texts are one encoding**, if there can be buffers for the pool that lists go
through. -/
theorem bytes_eq_byteList (order : ByteOrder) {limits : StagingLimits} (hlimits : limits.Allocatable) :
    let list := byteList order limits
    (∀ bs : Bytes, bs.length ≤ CountHeader.maxCount →
        list.encodedSize (words bs) = bytes.encodedSize bs
          ∧ (∀ dst, list.write (words bs) dst = bytes.write bs dst)
          ∧ ∀ s : Sink, s.Delivers (bytesCode bs) (bytes.writeTo bs s)
            ∧ s.Delivers (bytesCode bs) (list.writeTo (words bs) s)
            ∧ (s.Steady → (list.writeTo (words bs) s).1 = (bytes.writeTo bs s).1
              ∧ (list.writeTo (words bs) s).2.bytes = (bytes.writeTo bs s).2.bytes))
      ∧ (∀ t : String, text.encodedSize t = bytes.encodedSize (Utf8.encode t)
        ∧ (∀ dst, text.write t dst = bytes.write (Utf8.encode t) dst)
        ∧ ∀ s, text.writeTo t s = bytes.writeTo (Utf8.encode t) s)
      ∧ (∀ src, list.read src = (bytes.read src).map fun read => (words read.1, read.2))
      ∧ (∀ src, ReadText (bytes.read src) (text.read src))
      ∧ (∀ s : Source, s.Steady → SameRead words (bytes.readFrom s).1 (list.readFrom s).1
        ∧ (list.readFrom s).2.left = (bytes.readFrom s).2.left)
      ∧ ∀ s : Source, ReadText (bytes.readFrom s).1 (text.readFrom s).1
        ∧ (text.readFrom s).2 = (bytes.readFrom s).2 := by
  intro list
  refine ⟨fun bs hcount => ⟨encodedSize_byteList hcount, write_byteList hcount, fun s => ?_⟩,
    fun t => ⟨rfl, fun _ => rfl, fun _ => rfl⟩, read_byteList, fun src => readText_asText _, fun s hs =>
      sameRead_readFrom hs hlimits, fun s => ⟨readText_asText _, rfl⟩⟩
  have hbytes : s.Delivers (bytesCode bs) (bytes.writeTo bs s) := s.delivers_writeBytesTo hcount
  have hlist : s.Delivers (bytesCode bs) (list.writeTo (words bs) s) := delivers_byteList hlimits hcount s
  refine ⟨hbytes, hlist, fun hs => ⟨?_, ?_⟩⟩
  · exact (hlist.of_steady hs).1.trans (hbytes.of_steady hs).1.symm
  · exact (hlist.of_steady hs).2.trans (hbytes.of_steady hs).2.symm

/-- Two letters through a buffer that holds one of them, and from a stream that ends behind the first letter. -/
theorem bytes_eq_byteList_of_two_letters :
    let list := byteList .big { poolThreshold := 0, maxBufferSize := 1 }
    let ab : Bytes := [0x61, 0x62]
    let s : Sink := { plan := [.fail .interrupted, .give 1] }
    let cut : Source := ⟨[1, 2, 0x61], [.give 1, .fail .interrupted]⟩
    list.write (words ab) [9, 9, 9, 9, 9] = (.ok 4, [1, 2, 0x61, 0x62, 9])
      ∧ (list.writeTo (words ab) s).1 = .ok 4
      ∧ (list.writeTo (words ab) s).2.bytes = [1, 2, 0x61, 0x62]
      ∧ list.read [1, 2, 0x61, 0x62] = .ok (words ab, 4)
      ∧ (bytes.readFrom cut).1 = .error (.truncatedStream 2 1 3)
      ∧ SameRead words (bytes.readFrom cut).1 (list.readFrom cut).1 := by
  intro list ab s cut
  have hs : s.Steady := ⟨by decide, by simp [s]⟩
  have hcut : cut.Steady := ⟨by simp [Source.Giving, cut], by simp [cut]⟩
  have hlimits : StagingLimits.Allocatable { poolThreshold := 0, maxBufferSize := 1 } := by decide
  obtain ⟨hwrites, -, hread, -, hreadFrom, -⟩ := bytes_eq_byteList .big hlimits
  obtain ⟨-, hwrite, hwriteTo⟩ := hwrites ab (by decide)
  obtain ⟨-, hlist, -⟩ := hwriteTo s
  obtain ⟨hlen, hbytes⟩ := hlist.of_steady hs
  refine ⟨(hwrite _).trans ?_, hlen, hbytes, (hread _).trans ?_, ?_, (hreadFrom cut hcut).1⟩
  all_goals decide +kernel

/-- One letter from a stream. The byte string is read in one piece, the list asks for a buffer that there cannot be. -/
theorem bytes_ne_byteList :
    let huge : StagingLimits := { poolThreshold := 0xffffffffffffffff, maxBufferSize := 0, poolCapacity := 0 }
    let s : Source := ⟨[1, 1, 0x61], []⟩
    huge.fillsPool = true ∧ s.Steady ∧ (bytes.readFrom s).1 = .ok ([0x61], 3)
      ∧ ((byteList .little huge).readFrom s).1 = .error .capacityOverflow := by
  intro huge s
  have hs : s.Steady := ⟨by simp [Source.Giving, s], by simp [s]⟩
  exact ⟨rfl, hs, by decide +kernel, by decide +kernel⟩

end Format

end MessageWire
