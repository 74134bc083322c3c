import MessageWire.Proofs.Streams
import MessageWire.Value.CountHeader
/-!
# Reading the count header

Two laws of reading are stated here for everything that is read. A read is local if it looks at no byte behind
those it takes (`LocalRead`). A read from a stream agrees with one from a buffer if it succeeds exactly if the
latter does on the bytes that the stream has left, with the same answer, and takes the bytes that the answer
tells and no more (`Agrees`).

The header obeys both, and the least header for a count reads back as that count.
-/

namespace MessageWire

variable {α β : Type}

/-! ### Laws of reading -/

/-- A read that depends on the bytes it takes, of which there are `size a` for the answer `a`, and on no others. -/
def LocalRead (size : α → Nat) (read : Bytes → Except ValueError α) : Prop :=
  ∀ w a, read w = .ok a → size a ≤ w.length ∧ ∀ s, read (w.take (size a) ++ s) = .ok a

/-- A stream read that succeeds as `expected?`, where the source had the bytes `left` before. -/
def Agrees (size : α → Nat) (left : Bytes) (expected? : Option α) (got : Except ValueError α × Source) : Prop :=
  match expected? with
  | some a => got.1 = .ok a ∧ size a ≤ left.length ∧ got.2.left = left.drop (size a) ∧ got.2.Steady
  | none => ∃ e, got.1 = .error e

theorem LocalRead.length_le {size : α → Nat} {read : Bytes → Except ValueError α} (h : LocalRead size read)
    {w : Bytes} {a : α} (hread : read w = .ok a) : size a ≤ w.length := (h w a hread).1

theorem LocalRead.append {size : α → Nat} {read : Bytes → Except ValueError α} (h : LocalRead size read)
    {w : Bytes} {a : α} (hread : read w = .ok a) (s : Bytes) : read (w ++ s) = .ok a := by
  have hlocal := (h w a hread).2 (w.drop (size a) ++ s)
  rwa [← List.append_assoc, List.take_append_drop] at hlocal

theorem Agrees.of_drop {size : α → Nat} {left : Bytes} {n : Nat} {expected? : Option α}
    {got : Except ValueError α × Source} (h : Agrees size (left.drop n) expected? got) (hle : n ≤ left.length)
    (size' : α → Nat) (hsize : ∀ a, expected? = some a → size' a = n + size a) :
    Agrees size' left expected? got := by
  cases expected? with
  | none => exact h
  | some a =>
    obtain ⟨hgot, hlen, hleft, hsteady⟩ := h
    rw [List.length_drop] at hlen
    refine ⟨hgot, ?_, ?_, hsteady⟩
    · rw [hsize a rfl]
      omega
    · rw [hleft, List.drop_drop, hsize a rfl]

/-- A steady source gives exactly what is asked for, if it has that much. -/
theorem Source.Steady.agrees_takeExactly {s : Source} (hs : s.Steady) (want : Nat) :
    Agrees (fun _ => want) s.left (if want ≤ s.left.length then some (s.left.take want) else none)
      (s.takeExactly want) := by
  obtain ⟨hbytes, herror, hleft, hsteady⟩ := hs.fill want
  unfold Source.takeExactly
  simp only [herror, hbytes, List.length_take]
  split
  case isTrue hle =>
    rw [if_neg (by omega)]
    exact ⟨rfl, hle, hleft, hsteady⟩
  case isFalse hlt =>
    rw [if_pos (by omega)]
    exact ⟨_, rfl⟩

/-- What is taken as a whole is as long as it was wanted, and nothing of it is left. -/
theorem Source.left_of_takeExactly {s s' : Source} {want : Nat} {data : Bytes}
    (h : s.takeExactly want = (.ok data, s')) : data.length = want ∧ s.left = data ++ s'.left := by
  obtain ⟨hleft, hlen⟩ := s.fill_left want
  unfold takeExactly at h
  generalize s.fill want = got at hleft hlen h
  obtain ⟨bytes, _ | e, source⟩ := got
  · simp only at h
    split at h
    case isTrue => cases h
    case isFalse hall =>
      cases h
      exact ⟨Nat.le_antisymm hlen (Nat.le_of_not_lt hall), hleft.symm⟩
  · cases h

namespace CountHeader

/-! ### The least header -/

/-- The least header for a count, without regard to the largest one. -/
def least (count : Nat) : Bytes :=
  UInt8.ofNat (widthClass count) :: littleEndian (classWidth (widthClass count)) count

theorem bytes_some {count : Nat} (h : count ≤ maxCount) : bytes (some count) = .ok (least count) := by
  rw [bytes, if_neg (by omega)]
  rfl

theorem bytes_of_lt {count : Nat} (h : maxCount < count) : bytes (some count) = .error (.invalidLength count) := by
  rw [bytes, if_pos h]

@[simp] theorem length_least (count : Nat) : (least count).length = sizeFor count := by
  rw [least, List.length_cons, length_littleEndian, sizeFor, Nat.add_comm]

theorem widthClass_lt (count : Nat) : widthClass count < 4 := by
  unfold widthClass
  repeat' split
  all_goals omega

theorem flag_of_widthClass : ∀ k < 4, marksNull (UInt8.ofNat k) = false ∧
    announcedWidth (UInt8.ofNat k) = classWidth k := by
  decide

theorem count_lt_classWidth {count : Nat} (h : count ≤ maxCount) :
    count < 1 <<< (8 * classWidth (widthClass count)) := by
  unfold maxCount at h
  unfold widthClass
  split
  · subst count
    decide
  · split
    · simpa [classWidth]
    · split
      · simpa [classWidth]
      · simp only [classWidth]
        omega

theorem read_least_append {count : Nat} (h : count ≤ maxCount) (s : Bytes) :
    read (least count ++ s) = .ok ⟨some count, sizeFor count⟩ := by
  obtain ⟨hnull, hwidth⟩ := flag_of_widthClass _ (widthClass_lt count)
  have hlen := length_littleEndian (classWidth (widthClass count)) count
  have hvalue : ofLittleEndian (littleEndian (classWidth (widthClass count)) count) = count := by
    rw [ofLittleEndian_littleEndian, Nat.mod_eq_of_lt (count_lt_classWidth h)]
  have hreach : reaches (classWidth (widthClass count))
      (littleEndian (classWidth (widthClass count)) count ++ s) = true := by
    rw [reaches_iff, List.length_append, hlen]
    omega
  rw [least, List.cons_append, read, hnull, hwidth]
  simp only [Bool.false_eq_true, if_false, hreach, if_true]
  rw [List.take_left' hlen, ofCountBytes, hvalue, if_neg (by omega), hlen]
  rfl

/-! ### Any header -/

/-- What a header may be that was read: null, or a count in as many bytes as its first one announces. -/
theorem read_eq_ok {w : Bytes} {h : CountHeader} (hread : read w = .ok h) :
    ∃ flag rest, w = flag :: rest ∧
      (marksNull flag = true ∧ h = ⟨none, 1⟩ ∨
        marksNull flag = false ∧ announcedWidth flag ≤ rest.length ∧ h.size = 1 + announcedWidth flag ∧
          ofCountBytes (rest.take (announcedWidth flag)) = .ok h) := by
  cases w with
  | nil => simp [read] at hread
  | cons flag rest =>
    refine ⟨flag, rest, rfl, ?_⟩
    rw [read] at hread
    split at hread
    case isTrue hnull =>
      cases hread
      exact .inl ⟨hnull, rfl⟩
    case isFalse hnull =>
      simp only at hread
      split at hread
      case isTrue hreach =>
        rw [reaches_iff] at hreach
        refine .inr ⟨by simpa using hnull, hreach, ?_, hread⟩
        unfold ofCountBytes at hread
        simp only at hread
        split at hread
        · cases hread
        · cases hread
          rw [List.length_take, Nat.min_eq_left hreach]
      case isFalse => cases hread

theorem local_read : LocalRead CountHeader.size read := by
  intro w h hread
  obtain ⟨flag, rest, rfl, ⟨hnull, rfl⟩ | ⟨hnull, hle, hsize, hcount⟩⟩ := read_eq_ok hread
  · refine ⟨by simp, fun s => ?_⟩
    rw [List.take_succ_cons, List.cons_append, read, if_pos hnull]
  · rw [hsize, Nat.add_comm, List.length_cons]
    refine ⟨by omega, fun s => ?_⟩
    have hlen : (rest.take (announcedWidth flag)).length = announcedWidth flag := by
      rw [List.length_take, Nat.min_eq_left hle]
    have hreach : reaches (announcedWidth flag) (rest.take (announcedWidth flag) ++ s) = true := by
      rw [reaches_iff, List.length_append, hlen]
      omega
    rw [List.take_succ_cons, List.cons_append, read, hnull]
    simp only [Bool.false_eq_true, if_false, hreach, if_true]
    rw [List.take_left' hlen, hcount]

/-- The bytes that a header has, as its first one tells. -/
def announced : Bytes → Nat
  | [] => 0
  | flag :: _ => if marksNull flag then 1 else 1 + announcedWidth flag

theorem size_of_read {w : Bytes} {h : CountHeader} (hread : read w = .ok h) : h.size = announced w := by
  obtain ⟨flag, rest, rfl, ⟨hnull, rfl⟩ | ⟨hnull, -, hsize, -⟩⟩ := read_eq_ok hread
  · exact (if_pos hnull).symm
  · rw [hsize, announced, hnull]
    rfl

/-- **A header is read from a steady source as if all its bytes were there at once**, also if it is none. -/
theorem readFrom_of_steady {s : Source} (hs : s.Steady) :
    (readFrom s).1 = read s.left ∧ (readFrom s).2.left = s.left.drop (announced s.left)
      ∧ (readFrom s).2.Steady := by
  obtain ⟨hbytes, herror, hleft, hsteady⟩ := hs.fill 1
  cases hw : s.left with
  | nil =>
    rw [hw] at hbytes hleft
    simp only [readFrom, herror, hbytes, List.take_nil]
    exact ⟨rfl, hleft, hsteady⟩
  | cons flag rest =>
    rw [hw] at hbytes hleft
    simp only [List.take_succ_cons, List.take_zero, List.drop_succ_cons, List.drop_zero] at hbytes hleft
    rw [readFrom, read, announced]
    simp only [herror, hbytes]
    split
    case isTrue hnull => exact ⟨rfl, hleft, hsteady⟩
    case isFalse hnull =>
      obtain ⟨hbytes', herror', hleft', hsteady'⟩ := hsteady.fill (announcedWidth flag)
      rw [hleft] at hbytes' hleft'
      rw [Nat.add_comm 1 (announcedWidth flag), List.drop_succ_cons, ← hleft']
      simp only [herror', hbytes', List.length_take, reaches_iff]
      by_cases hle : announcedWidth flag ≤ rest.length
      · rw [if_pos hle, if_neg (by omega)]
        exact ⟨rfl, rfl, hsteady'⟩
      · rw [if_neg hle, if_pos (by omega), Nat.min_eq_right (by omega), Nat.add_comm 1]
        exact ⟨rfl, rfl, hsteady'⟩

theorem agrees_readFrom {s : Source} (hs : s.Steady) :
    Agrees CountHeader.size s.left (read s.left).toOption (readFrom s) := by
  obtain ⟨hgot, hleft, hsteady⟩ := readFrom_of_steady hs
  cases hread : read s.left with
  | error e => exact ⟨e, hgot.trans hread⟩
  | ok h =>
    refine ⟨hgot.trans hread, local_read.length_le hread, ?_, hsteady⟩
    rw [hleft, size_of_read hread]

end CountHeader

end MessageWire
