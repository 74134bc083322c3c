import MessageWire.Proofs.Value.Streaming
/-!
# Members one by one

A sequence is not a list: its members come one at a time, and that there are no more of them shows when the next one
does not come. What goes along one is an `Iteration`, which knows how many members it took. At the end it tells how many
there are in all (`Iteration.confirm_taken`).

Members that are put into a destination one by one leave there what a list of them would, as far as they find room
(`Collection.putMembers_eq`).
-/

namespace MessageWire

variable {α : Type}

/-! ### Writing behind what was written -/

theorem overwrite_nil (buffer : Bytes) (start : Nat) : overwrite buffer start [] = buffer := by
  rw [overwrite, List.append_nil, List.length_nil, Nat.add_zero, List.take_append_drop]

theorem take_overwrite {buffer : Bytes} {start : Nat} (hle : start ≤ buffer.length) (data : Bytes) :
    (overwrite buffer start data).take (start + data.length) = buffer.take start ++ data := by
  have hlen : (buffer.take start ++ data).length = start + data.length := by
    rw [List.length_append, List.length_take, Nat.min_eq_left hle]
  rw [overwrite, List.take_left' hlen]

theorem drop_overwrite {buffer data : Bytes} {start n : Nat} (hle : start ≤ buffer.length)
    (hn : start + data.length ≤ n) : (overwrite buffer start data).drop n = buffer.drop n := by
  have hlen : (buffer.take start ++ data).length = start + data.length := by
    rw [List.length_append, List.length_take, Nat.min_eq_left hle]
  obtain ⟨more, rfl⟩ := Nat.exists_eq_add_of_le hn
  rw [overwrite, ← List.drop_drop, List.drop_left' hlen, List.drop_drop]

theorem overwrite_overwrite {buffer : Bytes} {start : Nat} (hle : start ≤ buffer.length) (front back : Bytes) :
    overwrite (overwrite buffer start front) (start + front.length) back = overwrite buffer start (front ++ back) := by
  have hdrop := drop_overwrite hle (Nat.le_add_right (start + front.length) back.length)
  rw [overwrite, take_overwrite hle, hdrop, overwrite, List.length_append, Nat.add_assoc]
  simp only [List.append_assoc]

theorem length_putFront (data dst : Bytes) : (putFront data dst).2.length = dst.length := by
  by_cases hle : data.length ≤ dst.length
  · rw [putFront_of_le hle, List.length_append, List.length_drop, Nat.add_sub_cancel' hle]
  · rw [putFront_of_lt (Nat.lt_of_not_le hle)]

/-! ### Iterations -/

/-- An iteration over a sequence: the members taken so far, by their number, and those that are still ahead. -/
structure Iteration (α : Type) where
  taken : Nat
  ahead : List α

namespace Iteration

def along (vs : List α) : Iteration α := ⟨0, vs⟩

/-- Whether an iteration took as many members as the sequence declared and finds no other. If it finds one, it goes on
to count those behind it. -/
def confirm (declared : Nat) (i : Iteration α) : Except ValueError Unit :=
  if i.taken < declared then .error (.lengthMismatch declared i.taken)
  else
    match i.ahead with
    | [] => .ok ()
    | _ :: rest => .error (.lengthMismatch declared (i.taken + 1 + rest.length))

/-- An iteration that went on until it took what was declared, or until there was nothing more, tells the members of the
whole sequence. -/
theorem confirm_taken (declared : Nat) (vs : List α) :
    (⟨(vs.take declared).length, vs.drop declared⟩ : Iteration α).confirm declared =
      if vs.length ≠ declared then .error (.lengthMismatch declared vs.length) else .ok () := by
  unfold confirm
  simp only [List.length_take]
  by_cases hshort : vs.length < declared
  · rw [if_pos (by omega), if_pos (by omega), Nat.min_eq_right (by omega)]
  · rw [if_neg (by omega), Nat.min_eq_left (by omega)]
    generalize hahead : vs.drop declared = ahead
    have hlen : ahead.length = vs.length - declared := by rw [← hahead, List.length_drop]
    cases ahead with
    | nil =>
      rw [List.length_nil] at hlen
      rw [if_neg (by omega)]
    | cons v rest =>
      rw [List.length_cons] at hlen
      have hcount : declared + 1 + rest.length = vs.length := by omega
      rw [if_pos (by omega), ← hcount]

/-- An iteration that took all that was declared has only to look for more. -/
theorem confirm_drop {declared : Nat} {vs : List α} (hle : declared ≤ vs.length) :
    (⟨declared, vs.drop declared⟩ : Iteration α).confirm declared =
      if vs.length = declared then .ok () else .error (.lengthMismatch declared vs.length) := by
  have htaken := confirm_taken declared vs
  rw [List.length_take, Nat.min_eq_left hle] at htaken
  rw [htaken, ite_not]

end Iteration

namespace Collection

variable (c : Collection α)

/-! ### Members in a destination -/

/-- Puts up to `limit` members one behind the other from `offset` on, and answers where the last ends. One without room
stops that. -/
def putMembers (needed : Nat → Nat) : (limit offset : Nat) → (dst : Bytes) → Iteration α →
    Except ValueError (Nat × Iteration α) × Bytes
  | 0, offset, dst, i => (.ok (offset, i), dst)
  | _ + 1, offset, dst, ⟨taken, []⟩ => (.ok (offset, ⟨taken, []⟩), dst)
  | limit + 1, offset, dst, ⟨taken, v :: ahead⟩ =>
    let stop := offset + c.elementSize
    if dst.length < stop then (.error (.bufferOverflow (needed stop) dst.length), dst)
    else putMembers needed limit stop (overwrite dst offset (c.codec.element.encode v)) ⟨taken + 1, ahead⟩

theorem fitting_cons (room : Nat) (v : α) (vs : List α) :
    c.fitting room (v :: vs) = if room < c.elementSize then [] else v :: c.fitting (room - c.elementSize) vs := by
  split
  case isTrue hless => rw [fitting, Nat.div_eq_of_lt hless, List.take_zero]
  case isFalse hroom =>
    have hcount : room / c.elementSize = (room - c.elementSize) / c.elementSize + 1 :=
      Nat.div_eq_sub_div c.size_pos (Nat.le_of_not_lt hroom)
    rw [fitting, hcount, List.take_succ_cons, fitting]

theorem length_fitting_le (room : Nat) (vs : List α) : (c.fitting room vs).length * c.elementSize ≤ room := by
  have hle : (c.fitting room vs).length ≤ room / c.elementSize := List.length_take_le _ _
  exact Nat.le_trans (Nat.mul_le_mul_right _ hle) (Nat.div_mul_le_self _ _)

theorem putMembers_eq (needed : Nat → Nat) (limit offset : Nat) (dst : Bytes) (taken : Nat) (ahead : List α) :
    let wanted := ahead.take limit
    let written := c.fitting (dst.length - offset) wanted
    c.putMembers needed limit offset dst ⟨taken, ahead⟩ =
      (if written.length < wanted.length then
          .error (.bufferOverflow (needed (offset + written.length * c.elementSize + c.elementSize)) dst.length)
        else .ok (offset + wanted.length * c.elementSize, ⟨taken + wanted.length, ahead.drop limit⟩),
        overwrite dst offset (c.codec.element.encodeList written)) := by
  have hnone : ∀ room, c.fitting room [] = [] := fun _ => List.take_nil
  induction limit generalizing offset dst taken ahead with
  | zero => simp [putMembers, hnone, ElementCodec.encodeList, overwrite_nil]
  | succ limit ih =>
    cases ahead with
    | nil => simp [putMembers, hnone, ElementCodec.encodeList, overwrite_nil]
    | cons v ahead =>
      have hsize : (c.codec.element.encode v).length = c.elementSize := c.codec.element.length_encode v
      simp only [putMembers, List.take_succ_cons, fitting_cons, List.drop_succ_cons]
      have hpos : 0 < c.elementSize := c.size_pos
      by_cases hroom : dst.length < offset + c.elementSize
      · have hless : dst.length - offset < c.elementSize := by omega
        simp [if_pos hroom, if_pos hless, ElementCodec.encodeList, overwrite_nil]
      -- The member fits, and the others go behind it.
      · have hnot : ¬ dst.length - offset < c.elementSize := by omega
        have hoffset : offset ≤ dst.length := by omega
        have hlen : (overwrite dst offset (c.codec.element.encode v)).length = dst.length :=
          length_overwrite (by rw [hsize]; omega)
        have hbehind := overwrite_overwrite hoffset (c.codec.element.encode v)
        rw [hsize] at hbehind
        have hstop : ∀ n, offset + c.elementSize + n * c.elementSize = offset + (n + 1) * c.elementSize := by
          intro n
          rw [Nat.succ_mul]
          omega
        have htaken : ∀ n, taken + 1 + n = taken + (n + 1) := by
          intro n
          omega
        rw [if_neg hroom, if_neg hnot, ih, hlen, hbehind, Nat.sub_sub]
        simp only [List.length_cons, Nat.add_lt_add_iff_right, hstop, htaken, ElementCodec.encodeList,
          List.flatMap_cons]

end Collection

end MessageWire
