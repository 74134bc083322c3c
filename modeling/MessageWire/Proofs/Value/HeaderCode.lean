import Mathlib.Order.Bounds.Defs
import MessageWire.Proofs.Value.BlockCopy
import MessageWire.Proofs.Value.Canonical
/-!
# Headers as a code

A header has one of four sizes (`CountHeader.sizes`), of which a count has room in some, and it is written with the
least of these (`CountHeader.isLeast_sizeFor`). The first byte tells where a header ends, so a header is read back
whatever comes behind it, and a proper front part of it is refused (`CountHeader.read_take_of_least`).

What is written into a buffer and to a stream is the same, and so is what is read, down to the numbers that an error
tells (`CountHeader.code_exact`).
-/

namespace MessageWire

namespace CountHeader

variable {count? : Option Nat} {count size n : Nat} {src : Bytes} {header : CountHeader}

/-! ### The least size -/

def sizes : List Nat := [1, 2, 3, 5]

/-- There is room for a count in the header of a size, behind its first byte. Null needs none. -/
def Holds (count? : Option Nat) (size : Nat) : Prop :=
  size ∈ sizes ∧ ∀ count, count? = some count → count < 1 <<< (8 * (size - 1))

theorem mem_sizes_iff : size ∈ sizes ↔ ∃ k, size = 1 + classWidth k := by
  constructor
  · intro hsize
    simp only [sizes, List.mem_cons, List.not_mem_nil, or_false] at hsize
    rcases hsize with rfl | rfl | rfl | rfl
    · exact ⟨0, rfl⟩
    · exact ⟨1, rfl⟩
    · exact ⟨2, rfl⟩
    · exact ⟨3, rfl⟩
  · rintro ⟨k, rfl⟩
    match k with
    | 0 | 1 | 2 => decide
    | k + 3 => exact show 5 ∈ sizes by decide

/-- The least header for a count is the least one that has room for it. -/
theorem isLeast_sizeFor (h : count ≤ maxCount) : IsLeast {size | Holds (some count) size} (sizeFor count) := by
  constructor
  · refine ⟨mem_sizes_iff.mpr ⟨_, rfl⟩, ?_⟩
    rintro _ ⟨⟩
    rw [sizeFor, Nat.add_sub_cancel_left]
    exact count_lt_classWidth h
  · rintro size ⟨hsize, hroom⟩
    obtain ⟨k, rfl⟩ := mem_sizes_iff.mp hsize
    have hlt := hroom count rfl
    rw [Nat.add_sub_cancel_left] at hlt
    exact Nat.add_le_add_left (classWidth_le_of_lt hlt) 1

theorem isLeast_null : IsLeast {size | Holds none size} 1 := by
  constructor
  · exact ⟨List.mem_cons_self, fun _ h => nomatch h⟩
  · rintro size ⟨hsize, -⟩
    obtain ⟨k, rfl⟩ := mem_sizes_iff.mp hsize
    exact Nat.le_add_right 1 _

/-! ### Parts of a header -/

theorem read_take_of_least (count : Nat) (hless : n < sizeFor count) :
    read ((least count).take n) = .error (.truncatedHeader (if n = 0 then 1 else sizeFor count) n) := by
  obtain ⟨hnull, hwidth⟩ := flag_of_widthClass _ (widthClass_lt count)
  cases n with
  | zero => rfl
  | succ n =>
    have hlen : ((littleEndian (classWidth (widthClass count)) count).take n).length = n := by
      rw [List.length_take, length_littleEndian]
      unfold sizeFor at hless
      omega
    rw [least, List.take_succ_cons, read, hnull, hwidth]
    simp only [reaches_iff, hlen]
    rw [if_neg (by simp), if_neg (by unfold sizeFor at hless; omega), Nat.add_comm 1 n]
    rfl

/-! ### Signed counts -/

theorem signed_of_le (h : count ≤ maxCount) : signed ⟨some count, size⟩ = count := by
  unfold maxCount at h
  have hword : (BitVec.ofNat 32 count).toNat = count := by
    rw [BitVec.toNat_ofNat, Nat.mod_eq_of_lt (by omega)]
  show (BitVec.ofNat 32 count).toInt = count
  rw [BitVec.toInt_eq_toNat_of_lt (by omega), hword]

theorem count_le_of_read (h : read src = .ok header) (hcount : header.count? = some count) : count ≤ maxCount := by
  obtain ⟨_, size⟩ := header
  cases hcount
  exact (sizeFor_le_of_read h).1

theorem signed_eq_neg_one_iff (h : read src = .ok header) : header.signed = -1 ↔ header.count? = none := by
  obtain ⟨_ | count, size⟩ := header
  · exact iff_of_true rfl rfl
  · rw [signed_of_le (count_le_of_read h rfl)]
    refine iff_of_false ?_ nofun
    omega

/-! ### Headers from streams -/

/-- Whatever a stream does, no more of it is taken than the first byte tells. -/
theorem exists_taken (s : Source) :
    ∃ taken, taken ≤ announced s.left ∧ (readFrom s).2.left = s.left.drop taken := by
  obtain ⟨hleft, hlen⟩ := s.fill_left 1
  unfold readFrom
  generalize s.fill 1 = first at hleft hlen ⊢
  obtain ⟨bytes, error?, s'⟩ := first
  cases bytes with
  | nil =>
    have hnone : s'.left = s.left := hleft
    refine ⟨0, Nat.zero_le _, ?_⟩
    cases error? <;> exact hnone
  | cons flag more =>
    obtain rfl : more = [] := List.eq_nil_of_length_eq_zero (Nat.le_zero.mp (Nat.le_of_succ_le_succ hlen))
    have hfirst : s.left = flag :: s'.left := hleft.symm
    have hone : 1 ≤ announced s.left := by
      rw [hfirst, announced]
      split <;> omega
    have hrest : s'.left = s.left.drop 1 := by
      rw [hfirst]
      rfl
    cases error? with
    | some e => exact ⟨1, hone, hrest⟩
    | none =>
      simp only
      split
      case isTrue => exact ⟨1, hone, hrest⟩
      case isFalse hnull =>
        obtain ⟨hleft', hlen'⟩ := s'.fill_left (announcedWidth flag)
        generalize s'.fill (announcedWidth flag) = rest at hleft' hlen' ⊢
        refine ⟨1 + rest.bytes.length, ?_, ?_⟩
        · rw [hfirst, announced, if_neg hnull]
          exact Nat.add_le_add_left hlen' 1
        · have hall : rest.source.left = s.left.drop (1 + rest.bytes.length) := by
            rw [← List.drop_drop, ← hrest, ← hleft', List.drop_left]
          split
          · exact hall
          · split <;> exact hall

/-! ### The code -/

/-- The bytes that a count or null is written as, into every destination and to every sink, and that read back as it. -/
structure Coded (count? : Option Nat) (code : Bytes) : Prop where
  least : IsLeast {size | Holds count? size} code.length
  write_eq : ∀ dst, write count? dst =
    if code.length ≤ dst.length then (.ok code.length, code ++ dst.drop code.length)
    else (.error (.bufferOverflow code.length dst.length), dst)
  delivers : ∀ s : Sink, s.Delivers code (writeTo count? s)
  read_append : ∀ suffix, read (code ++ suffix) = .ok ⟨count?, code.length⟩
  read_take : ∀ n < code.length,
    read (code.take n) = .error (.truncatedHeader (if n = 0 then 1 else code.length) n)

theorem write_of_bytes {code : Bytes} (h : bytes count? = .ok code) (dst : Bytes) :
    write count? dst = if code.length ≤ dst.length then (.ok code.length, code ++ dst.drop code.length)
      else (.error (.bufferOverflow code.length dst.length), dst) := by
  rw [write, h]
  simp only
  split
  case isTrue hroom => exact putFront_of_le hroom
  case isFalse hshort => exact putFront_of_lt (Nat.lt_of_not_le hshort)

theorem delivers_of_bytes {code : Bytes} (h : bytes count? = .ok code) (s : Sink) :
    s.Delivers code (writeTo count? s) := by
  rw [writeTo, h]
  exact s.delivers_put code

theorem coded_null : Coded none [nullFlag] where
  least := isLeast_null
  write_eq := write_of_bytes rfl
  delivers := delivers_of_bytes rfl
  read_append _ := rfl
  read_take n hn := by
    obtain rfl : n = 0 := Nat.lt_one_iff.mp hn
    rfl

theorem coded_least (h : count ≤ maxCount) : Coded (some count) (least count) where
  least := by
    rw [length_least]
    exact isLeast_sizeFor h
  write_eq := write_of_bytes (bytes_some h)
  delivers := delivers_of_bytes (bytes_some h)
  read_append suffix := by
    rw [length_least]
    exact read_least_append h suffix
  read_take n hn := by
    rw [length_least] at hn ⊢
    exact read_take_of_least count hn

/-- **A header is the least one that has room for its count, and buffers and streams have the same.** A count that is
too large is refused. -/
theorem code_exact :
    (∀ count?, (∀ count, count? = some count → count ≤ maxCount) →
        ∃ code, bytes count? = .ok code ∧ Coded count? code
          ∧ ∀ s : Sink, s.Steady →
            (writeTo count? s).1 = .ok code.length ∧ (writeTo count? s).2.bytes = s.bytes ++ code)
      ∧ (∀ count, maxCount < count →
        (∀ dst, write (some count) dst = (.error (.invalidLength count), dst))
          ∧ ∀ s, writeTo (some count) s = (.error (.invalidLength count), s))
      ∧ (∀ s : Source, s.Steady → (readFrom s).1 = read s.left
        ∧ ∀ header, read s.left = .ok header →
          header.size ≤ s.left.length ∧ (readFrom s).2.left = s.left.drop header.size)
      ∧ (∀ s : Source, ∃ taken, taken ≤ announced s.left ∧ (readFrom s).2.left = s.left.drop taken)
      ∧ ∀ src header, read src = .ok header →
        (∀ count, header.count? = some count → count ≤ maxCount ∧ header.signed = count)
          ∧ (header.signed = -1 ↔ header.count? = none) := by
  refine ⟨fun count? hcount => ?_, fun count hlarge => ?_, fun s hs => ?_, exists_taken, fun src header hread => ?_⟩
  · obtain ⟨code, hbytes, hcoded⟩ : ∃ code, bytes count? = .ok code ∧ Coded count? code := by
      cases count? with
      | none => exact ⟨_, rfl, coded_null⟩
      | some count => exact ⟨_, bytes_some (hcount count rfl), coded_least (hcount count rfl)⟩
    exact ⟨code, hbytes, hcoded, fun s hs => (hcoded.delivers s).of_steady hs⟩
  · have hrefused := bytes_of_lt hlarge
    exact ⟨fun dst => by rw [write, hrefused], fun s => by rw [writeTo, hrefused]⟩
  · obtain ⟨hgot, hleft, -⟩ := readFrom_of_steady hs
    refine ⟨hgot, fun header hread => ⟨local_read.length_le hread, ?_⟩⟩
    rw [hleft, size_of_read hread]
  · refine ⟨fun count hcount => ?_, signed_eq_neg_one_iff hread⟩
    have hle := count_le_of_read hread hcount
    obtain ⟨_, size⟩ := header
    cases hcount
    exact ⟨hle, signed_of_le hle⟩

/-- The header for three hundred, in pieces and from a stream that ends in it. The least count that is too large has
none. -/
theorem code_exact_of_three_hundred :
    let s : Sink := { plan := [.fail .interrupted, .give 2] }
    let whole : Source := ⟨[2, 44, 1, 9], [.give 1]⟩
    let cut : Source := ⟨[2, 44], [.give 1, .fail .interrupted]⟩
    (writeTo (some 300) s).1 = .ok 3 ∧ (writeTo (some 300) s).2.bytes = [2, 44, 1]
      ∧ (readFrom whole).1 = .ok ⟨some 300, 3⟩ ∧ (readFrom whole).2.left = [9]
      ∧ (readFrom cut).1 = .error (.truncatedHeader 3 2)
      ∧ (write (some 2147483648) [7, 7]).2 = [7, 7] := by
  intro s whole cut
  have hs : s.Steady := ⟨by decide, by simp [s]⟩
  have hwhole : whole.Steady := ⟨by simp [Source.Giving, whole], by simp [whole]⟩
  have hcut : cut.Steady := ⟨by simp [Source.Giving, cut], by simp [cut]⟩
  obtain ⟨hwrite, hlarge, hread, -, -⟩ := code_exact
  obtain ⟨code, hbytes, -, hto⟩ := hwrite (some 300) (by decide)
  obtain rfl : code = [2, 44, 1] := Except.ok.inj (hbytes.symm.trans (by decide))
  obtain ⟨hlen, hsink⟩ := hto s hs
  obtain ⟨hgot, htaken⟩ := hread whole hwhole
  obtain ⟨-, hleft⟩ := htaken ⟨some 300, 3⟩ (by decide)
  exact ⟨hlen, hsink, hgot.trans (by decide), hleft, (hread cut hcut).1.trans (by decide),
    congrArg Prod.snd ((hlarge 2147483648 (by decide)).1 [7, 7])⟩

end CountHeader

end MessageWire
