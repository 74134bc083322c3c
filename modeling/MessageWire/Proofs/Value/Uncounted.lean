import MessageWire.Proofs.Value.Members
/-!
# Sequences of unknown length

How long a sequence is may show only at its end. Its members are written behind room that is kept for the header, and
moved up or down to the header that they turn out to need. What comes of it does not depend on the room that was kept,
whether it was right, too large or too small: the encoding of the list, if there is room for the members both before and
after they are moved (`Collection.writeUncounted_exact`).

`Collection.writeEach` does so member by member, and it comes to the same (`Collection.writeEach_eq`).
-/

namespace MessageWire

variable {α : Type}

/-! ### Bytes that are moved -/

theorem drop_overwrite_start {buffer : Bytes} {start : Nat} (hle : start ≤ buffer.length) (data : Bytes) :
    (overwrite buffer start data).drop start = data ++ buffer.drop (start + data.length) := by
  have hlen : (buffer.take start).length = start := by rw [List.length_take, Nat.min_eq_left hle]
  rw [overwrite, List.append_assoc, List.drop_left' hlen]

theorem moveRange_of_le {buffer : Bytes} {start count target : Nat} (hle : max start target + count ≤ buffer.length) :
    moveRange buffer start count target = .ok (overwrite buffer target ((buffer.drop start).take count)) := by
  have hstop : saturate (max start target + count) ≤ buffer.length := Nat.le_trans (Nat.min_le_left _ _) hle
  unfold moveRange
  rw [if_neg (Nat.not_lt.mpr hstop)]

/-- A range that does not lie inside a buffer is found so, as long as the machine has words for the buffer's length. -/
theorem moveRange_of_lt {buffer : Bytes} (hword : buffer.length < maxWord) {start count target : Nat}
    (hlt : buffer.length < max start target + count) :
    buffer.length < saturate (max start target + count) ∧ moveRange buffer start count target =
      .error (.bufferOverflow (saturate (max start target + count)) buffer.length) := by
  have hstop : buffer.length < saturate (max start target + count) := Nat.lt_min.mpr ⟨hlt, hword⟩
  refine ⟨hstop, ?_⟩
  unfold moveRange
  rw [if_pos hstop]

theorem moveRange_self {buffer : Bytes} {start count : Nat} (hle : start + count ≤ buffer.length) :
    moveRange buffer start count start = .ok buffer := by
  have hlen : ((buffer.drop start).take count).length = count := by
    rw [List.length_take, List.length_drop]
    omega
  rw [moveRange_of_le (by rwa [Nat.max_self]), overwrite, hlen, List.append_assoc, ← List.drop_drop,
    List.take_append_drop, List.take_append_drop]

theorem moveRange_overwrite {buffer data : Bytes} {start target : Nat}
    (hle : max start target + data.length ≤ buffer.length) :
    moveRange (overwrite buffer start data) start data.length target =
      .ok (overwrite (overwrite buffer start data) target data) := by
  have hlen : (overwrite buffer start data).length = buffer.length := length_overwrite (by omega)
  rw [moveRange_of_le (by rwa [hlen]), drop_overwrite_start (by omega), List.take_left]

namespace Collection

variable (c : Collection α)

/-! ### Member by member -/

/-- The room that is kept for the header of a sequence, by the bound on the number of its members if it has one. -/
def reservedFor (upper? : Option Nat) : Nat := (upper?.map CountHeader.sizeFor).getD CountHeader.maxSize

/-- Writes a sequence that declares nothing: one member after the other behind room for a header, which is filled in
once there are no more. -/
def writeEach (upper? : Option Nat) (vs : List α) (dst : Bytes) : Except ValueError Nat × Bytes :=
  let reserved := reservedFor upper?
  match c.putMembers id vs.length reserved dst (.along vs) with
  | (.error e, dst') => (.error e, dst')
  | (.ok (stop, i), dst') =>
    if i.taken > CountHeader.maxCount then (.error (.invalidLength i.taken), dst')
    else
      let header := CountHeader.sizeFor i.taken
      let body := stop - reserved
      match if header ≠ reserved ∧ 0 < body then moveRange dst' reserved body header else .ok dst' with
      | .error e => (.error e, dst')
      | .ok dst'' =>
        match CountHeader.write (some i.taken) dst'' with
        | (.error e, dst''') => (.error e, dst''')
        | (.ok header, dst''') => (.ok (header + body), dst''')

theorem overwrite_members (vs : List α) (dst : Bytes) (offset : Nat) :
    (if vs.isEmpty then dst else overwrite dst offset (c.codec.element.encodeList vs))
      = overwrite dst offset (c.codec.element.encodeList vs) := by
  cases vs with
  | nil => exact (overwrite_nil dst offset).symm
  | cons v vs => rfl

/-- Members that were put where their header leaves off are in place. -/
theorem moveRange_fitting (header : Nat) (vs : List α) (dst : Bytes) :
    let written := c.fitting (dst.length - header) vs
    let body := written.length * c.elementSize
    let dst' := overwrite dst header (c.codec.element.encodeList written)
    (if 0 < body then moveRange dst' header body header else .ok dst') = .ok dst' := by
  intro written body dst'
  have hroom : body ≤ dst.length - header := c.length_fitting_le _ _
  have hbody : (c.codec.element.encodeList written).length = body := ElementCodec.length_encodeList _ _
  split
  case isTrue hpos =>
    apply moveRange_self
    rw [length_overwrite (by omega)]
    omega
  case isFalse => rfl

/-- Members that are in place already are moved without need, but to no effect. -/
theorem move_of_in_place {dst : Bytes} {reserved body : Nat} (header : Nat)
    (hplace : (if 0 < body then moveRange dst reserved body reserved else .ok dst) = .ok dst) :
    (if header ≠ reserved ∧ 0 < body then moveRange dst reserved body header else .ok dst)
      = if body > 0 then moveRange dst reserved body header else .ok dst := by
  by_cases hmoved : header = reserved
  · subst hmoved
    rw [if_neg fun hboth => hboth.1 rfl]
    exact hplace.symm
  · simp only [ne_eq, hmoved, not_false_eq_true, true_and, gt_iff_lt]

/-- What a sequence that declares nothing comes to is told from the whole list. -/
theorem writeEach_eq (upper? : Option Nat) (vs : List α) (dst : Bytes) :
    c.writeEach upper? vs dst = c.writeUncounted upper? vs dst := by
  unfold writeEach writeUncounted reservedFor
  generalize (upper?.map CountHeader.sizeFor).getD CountHeader.maxSize = reserved
  simp only [Iteration.along, putMembers_eq, List.take_length, List.drop_length, overwrite_members]
  have hplace := c.moveRange_fitting reserved vs dst
  have hle : (c.fitting (dst.length - reserved) vs).length ≤ vs.length := List.length_take_le' _ _
  generalize c.fitting (dst.length - reserved) vs = written at hplace hle ⊢
  by_cases hshort : written.length < vs.length
  · rw [if_pos hshort, if_pos hshort]
    rfl
  · have hall : written.length = vs.length := by omega
    simp only [hall] at hplace
    rw [if_neg hshort, if_neg hshort, hall]
    simp only [Nat.zero_add, Nat.add_sub_cancel_left]
    by_cases hcount : vs.length > CountHeader.maxCount
    · rw [if_pos hcount, if_pos hcount]
    · rw [if_neg hcount, if_neg hcount]
      exact move_of_in_place (CountHeader.sizeFor vs.length) hplace ▸ rfl

/-! ### What comes of it -/

variable {c} {upper? : Option Nat} {vs : List α} {dst : Bytes}

/-- A sequence without members is a header alone, whatever room was kept for it. -/
theorem writeUncounted_nil (upper? : Option Nat) (dst : Bytes) :
    c.writeUncounted upper? [] dst = putFront (CountHeader.least 0) dst := by
  have hwrite : CountHeader.write (some 0) dst = putFront (CountHeader.least 0) dst := by
    rw [CountHeader.write, CountHeader.bytes_some (Nat.zero_le _)]
  unfold writeUncounted
  simp only [fitting, List.take_nil, List.isEmpty_nil, if_true, List.length_nil, Nat.lt_irrefl, if_false,
    Nat.zero_mul, gt_iff_lt, Nat.not_lt_zero, hwrite, Nat.add_zero]
  generalize putFront (CountHeader.least 0) dst = written
  obtain ⟨result, dst'⟩ := written
  cases result <;> rfl

/-- A member that does not fit behind the room for the header ends the writing. -/
theorem writeUncounted_of_unfitting (hroom : dst.length < reservedFor upper? + vs.length * c.elementSize)
    (hpos : 0 < vs.length) : ∃ needed, dst.length < needed
      ∧ (c.writeUncounted upper? vs dst).1 = .error (.bufferOverflow needed dst.length) := by
  unfold reservedFor at hroom
  unfold writeUncounted
  generalize (upper?.map CountHeader.sizeFor).getD CountHeader.maxSize = reserved at hroom ⊢
  have hsize : 0 < c.elementSize := c.size_pos
  have hone : c.elementSize ≤ vs.length * c.elementSize := Nat.le_mul_of_pos_left _ hpos
  have hshort : (c.fitting (dst.length - reserved) vs).length < vs.length :=
    Format.length_fitting_of_lt c (by omega)
  refine ⟨_, ?_, by simp only [if_pos hshort]; rfl⟩
  -- The next member would have found room as well, had the sum been smaller.
  have hfew : (c.fitting (dst.length - reserved) vs).length = (dst.length - reserved) / c.elementSize := by
    rw [fitting, List.length_take] at hshort ⊢
    omega
  have hnext := Nat.lt_div_mul_add (a := dst.length - reserved) hsize
  rw [hfew]
  omega

theorem writeUncounted_of_moved (hcount : vs.length ≤ CountHeader.maxCount)
    (hroom : reservedFor upper? + vs.length * c.elementSize ≤ dst.length) {moved : Bytes}
    (hmove :
      let dst' := overwrite dst (reservedFor upper?) (c.codec.encodeAll vs)
      let body := vs.length * c.elementSize
      (if body > 0 then moveRange dst' (reservedFor upper?) body (CountHeader.sizeFor vs.length) else .ok dst')
        = .ok moved)
    (hheader : CountHeader.sizeFor vs.length ≤ moved.length) :
    c.writeUncounted upper? vs dst =
      (.ok (CountHeader.sizeFor vs.length + vs.length * c.elementSize),
        CountHeader.least vs.length ++ moved.drop (CountHeader.sizeFor vs.length)) := by
  have hall : c.fitting (dst.length - reservedFor upper?) vs = vs := Format.fitting_of_le c (by omega)
  rw [← CountHeader.length_least] at hheader
  unfold reservedFor at hall hmove
  unfold writeUncounted
  rw [Codec.encodeAll_eq] at hmove
  simp only at hmove
  simp only [overwrite_members, hall, Nat.lt_irrefl, if_false, if_neg (Nat.not_lt.mpr hcount), hmove,
    CountHeader.write, CountHeader.bytes_some hcount, putFront_of_le hheader, CountHeader.length_least]

/-- Members that find room where they are put and behind their header make up the encoding of the list. -/
theorem writeUncounted_of_le (hcount : vs.length ≤ CountHeader.maxCount)
    (hroom : max (reservedFor upper?) (CountHeader.sizeFor vs.length) + vs.length * c.elementSize ≤ dst.length) :
    let code := Format.listCode c vs
    c.writeUncounted upper? vs dst =
      (.ok code.length, code ++ (overwrite dst (reservedFor upper?) (c.codec.encodeAll vs)).drop code.length) := by
  intro code
  have hbody : (c.codec.encodeAll vs).length = vs.length * c.elementSize := Codec.length_encodeAll _ _
  have hlen : (overwrite dst (reservedFor upper?) (c.codec.encodeAll vs)).length = dst.length :=
    length_overwrite (by omega)
  generalize hput : overwrite dst (reservedFor upper?) (c.codec.encodeAll vs) = dst' at hlen ⊢
  have hmove : (if vs.length * c.elementSize > 0 then
        moveRange dst' (reservedFor upper?) (vs.length * c.elementSize) (CountHeader.sizeFor vs.length)
      else .ok dst') = .ok (overwrite dst' (CountHeader.sizeFor vs.length) (c.codec.encodeAll vs)) := by
    split
    case isTrue =>
      rw [← hput, ← hbody, moveRange_overwrite (by omega)]
    case isFalse hnone =>
      rw [List.eq_nil_of_length_eq_zero (l := c.codec.encodeAll vs) (by omega), overwrite_nil]
  have hmoved := drop_overwrite_start (show CountHeader.sizeFor vs.length ≤ dst'.length by omega)
    (c.codec.encodeAll vs)
  have hlen' : (overwrite dst' (CountHeader.sizeFor vs.length) (c.codec.encodeAll vs)).length = dst'.length :=
    length_overwrite (by omega)
  rw [← hput] at hmove
  rw [writeUncounted_of_moved hcount (by omega) hmove (by rw [hput]; omega), hput, hmoved, hbody,
    ← Format.length_listCode, ← List.append_assoc]
  rfl

/-- Members that were put, but would end behind the destination once they are moved. -/
theorem writeUncounted_of_unmoved (hcount : vs.length ≤ CountHeader.maxCount) (hword : dst.length < maxWord)
    (hroom : reservedFor upper? + vs.length * c.elementSize ≤ dst.length) (hpos : 0 < vs.length)
    (hless : dst.length < max (reservedFor upper?) (CountHeader.sizeFor vs.length) + vs.length * c.elementSize) :
    ∃ needed, dst.length < needed
      ∧ (c.writeUncounted upper? vs dst).1 = .error (.bufferOverflow needed dst.length) := by
  have hbody : (c.codec.encodeAll vs).length = vs.length * c.elementSize := Codec.length_encodeAll _ _
  have hlen : (overwrite dst (reservedFor upper?) (c.codec.encodeAll vs)).length = dst.length :=
    length_overwrite (by omega)
  rw [← hlen] at hword hless
  obtain ⟨hneeded, hmove⟩ := moveRange_of_lt hword hless
  rw [hlen] at hneeded hmove
  have hall : c.fitting (dst.length - reservedFor upper?) vs = vs := Format.fitting_of_le c (by omega)
  unfold reservedFor at hneeded hall hmove
  refine ⟨_, hneeded, ?_⟩
  unfold writeUncounted
  rw [Codec.encodeAll_eq] at hmove
  simp only [overwrite_members, hall, Nat.lt_irrefl, if_false, if_neg (Nat.not_lt.mpr hcount), gt_iff_lt,
    if_pos (Nat.mul_pos hpos c.size_pos : 0 < vs.length * c.elementSize), hmove]

/-- The room that a sequence of `count` members needs: theirs behind the larger of the header expected and the one
needed. -/
def Fits (c : Collection α) (upper? : Option Nat) (count room : Nat) : Prop :=
  count = 0 ∧ 1 ≤ room
    ∨ 0 < count ∧ max (reservedFor upper?) (CountHeader.sizeFor count) + count * c.elementSize ≤ room

theorem writeUncounted_of_fits (hcount : vs.length ≤ CountHeader.maxCount)
    (hfits : c.Fits upper? vs.length dst.length) :
    let code := Format.listCode c vs
    let reach := max (reservedFor upper?) (CountHeader.sizeFor vs.length) + vs.length * c.elementSize
    code.length ≤ dst.length ∧ ∃ before : Bytes, before.length = dst.length ∧ before.drop reach = dst.drop reach
      ∧ c.writeUncounted upper? vs dst = (.ok code.length, code ++ before.drop code.length) := by
  intro code reach
  rcases hfits with ⟨hnone, hone⟩ | ⟨-, hroom⟩
  · obtain rfl := List.eq_nil_of_length_eq_zero hnone
    have hcode : code = CountHeader.least 0 := by
      rw [show code = Format.listCode c [] from rfl, Format.listCode, Codec.encodeAll_eq]
      exact List.append_nil _
    have hle : (CountHeader.least 0).length ≤ dst.length := hone
    rw [hcode]
    refine ⟨hle, dst, rfl, rfl, ?_⟩
    rw [writeUncounted_nil, putFront_of_le hle]
  · have hcode : code.length = CountHeader.sizeFor vs.length + vs.length * c.elementSize := Format.length_listCode c vs
    have hbody : (c.codec.encodeAll vs).length = vs.length * c.elementSize := Codec.length_encodeAll _ _
    refine ⟨by omega, overwrite dst (reservedFor upper?) (c.codec.encodeAll vs), length_overwrite (by omega),
      drop_overwrite (by omega) (by omega), ?_⟩
    exact writeUncounted_of_le hcount hroom

theorem writeUncounted_of_not_fits (hcount : vs.length ≤ CountHeader.maxCount) (hword : dst.length < maxWord)
    (hfits : ¬ c.Fits upper? vs.length dst.length) : ∃ needed, dst.length < needed
      ∧ (c.writeUncounted upper? vs dst).1 = .error (.bufferOverflow needed dst.length) := by
  unfold Fits at hfits
  by_cases hpos : 0 < vs.length
  · by_cases hroom : reservedFor upper? + vs.length * c.elementSize ≤ dst.length
    · exact writeUncounted_of_unmoved hcount hword hroom hpos (by omega)
    · exact writeUncounted_of_unfitting (by omega) hpos
  · obtain rfl : vs = [] := List.eq_nil_of_length_eq_zero (by omega)
    have hless : dst.length < (CountHeader.least 0).length := by
      rw [List.length_nil] at hfits
      exact Nat.lt_of_not_le fun hle => hfits (.inl ⟨rfl, hle⟩)
    refine ⟨_, hless, ?_⟩
    rw [writeUncounted_nil, putFront_of_lt hless]

/-- **Room for a header of any size.** A sequence that declares nothing is written as its list is, or the destination is
too short. -/
theorem writeUncounted_exact (c : Collection α) (upper? : Option Nat) {vs : List α} {dst : Bytes}
    (hcount : vs.length ≤ CountHeader.maxCount) (hword : dst.length < maxWord) :
    let header := CountHeader.sizeFor vs.length
    let body := vs.length * c.elementSize
    let reach := max (reservedFor upper?) header + body
    let got := c.writeUncounted upper? vs dst
    c.writeEach upper? vs dst = got
      ∧ ((∃ n, got.1 = .ok n) ↔ c.Fits upper? vs.length dst.length)
      ∧ (¬ c.Fits upper? vs.length dst.length →
          ∃ needed, dst.length < needed ∧ got.1 = .error (.bufferOverflow needed dst.length))
      ∧ ∀ n, got.1 = .ok n → n = header + body
          ∧ c.writeAll vs dst = (.ok n, got.2.take n ++ dst.drop n)
          ∧ got.2.length = dst.length ∧ got.2.drop reach = dst.drop reach := by
  intro header body reach got
  refine ⟨c.writeEach_eq upper? vs dst, ?_⟩
  by_cases hfits : c.Fits upper? vs.length dst.length
  · obtain ⟨hle, before, hlen, hbehind, hgot⟩ := writeUncounted_of_fits hcount hfits
    have hcode : (Format.listCode c vs).length = header + body := Format.length_listCode c vs
    obtain ⟨more, hmore⟩ : ∃ more, reach = (Format.listCode c vs).length + more :=
      Nat.exists_eq_add_of_le (by omega)
    refine ⟨iff_of_true ⟨_, congrArg Prod.fst hgot⟩ hfits, fun hnot => absurd hfits hnot, fun n hn => ?_⟩
    simp only [got, hgot] at hn ⊢
    cases hn
    refine ⟨hcode, ?_, ?_, ?_⟩
    · rw [Format.writeAll_eq c hcount (by omega), putFront_of_le hle, List.take_left]
    · rw [List.length_append, List.length_drop, hlen, Nat.add_sub_cancel' hle]
    · rw [← hbehind, hmore, ← List.drop_drop, List.drop_left, List.drop_drop]
      exact congrArg (List.drop · before) hmore.symm
  · obtain ⟨needed, hneeded, hgot⟩ := writeUncounted_of_not_fits hcount hword hfits
    have hfailed : ∀ n, got.1 ≠ .ok n := fun n hn => by cases hgot.symm.trans hn
    exact ⟨iff_of_false (fun ⟨n, hn⟩ => hfailed n hn) hfits, fun _ => ⟨needed, hneeded, hgot⟩,
      fun n hn => absurd hn (hfailed n)⟩

/-- Two words behind room for the header of none, in a destination that has a byte more than they need. -/
theorem writeUncounted_exact_of_low_bound :
    let c : Collection (BitVec 16) := ⟨.block (.word 2) .big, by decide⟩
    let dst : Bytes := List.replicate 7 0xee
    let got := c.writeUncounted (some 0) [7, 8] dst
    got.1 = .ok 6 ∧ got.2 = [1, 2, 0, 7, 0, 8, 0xee]
      ∧ c.writeAll [7, 8] dst = (.ok 6, got.2.take 6 ++ dst.drop 6) ∧ got.2.drop 6 = dst.drop 6 := by
  intro c dst got
  obtain ⟨-, hiff, -, hexact⟩ := @writeUncounted_exact _ c (some 0) [7, 8] dst (by decide) (by decide)
  obtain ⟨n, hok⟩ := hiff.mpr (.inr ⟨by decide, by decide⟩)
  obtain ⟨rfl, hall, -, hbehind⟩ := hexact n hok
  exact ⟨hok, by decide +kernel, hall, hbehind⟩

end Collection

end MessageWire
