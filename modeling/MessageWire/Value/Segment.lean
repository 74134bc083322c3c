import MessageWire.Value.Error
/-!
# Segments

A segment is a window over a list. Only the window counts as its value; the rest of the list is kept
with it. That the window lies inside the list is part of the type.
-/

namespace MessageWire

/-- A window of `count` members of `items`, starting at `offset`. -/
structure Segment (α : Type) where
  items : List α
  offset : Nat
  count : Nat
  inside : offset + count ≤ items.length

namespace Segment

variable {α : Type}

/-- The segment with the given window, if the list has it. -/
def ofWindow (items : List α) (offset count : Nat) : Except ValueError (Segment α) :=
  let stop := saturate (offset + count)
  if h : offset + count ≤ items.length then .ok ⟨items, offset, count, h⟩
  else .error (.bufferOverflow stop items.length)

def ofList (items : List α) : Segment α := ⟨items, 0, items.length, by simp⟩

def toList (s : Segment α) : List α := (s.items.drop s.offset).take s.count

/-- The segment with `f` applied to every member in the window, and the rest as it was. -/
def modify (f : α → α) (s : Segment α) : Segment α where
  items := s.items.take s.offset ++ s.toList.map f ++ s.items.drop (s.offset + s.count)
  offset := s.offset
  count := s.count
  inside := by
    have h := s.inside
    simp only [toList, List.length_append, List.length_take, List.length_map, List.length_drop]
    omega

@[simp] theorem toList_ofList (items : List α) : (ofList items).toList = items := by
  simp [ofList, toList]

@[simp] theorem length_toList (s : Segment α) : s.toList.length = s.count := by
  have h := s.inside
  simp only [toList, List.length_take, List.length_drop]
  omega

theorem toList_modify (f : α → α) (s : Segment α) : (s.modify f).toList = s.toList.map f := by
  have hlen : (s.items.take s.offset).length = s.offset := by
    have h := s.inside
    rw [List.length_take]
    omega
  have hcount : (s.toList.map f).length = s.count := by simp
  rw [toList, modify]
  simp only
  rw [List.append_assoc, List.drop_left' hlen, List.take_left' hcount]

end Segment

end MessageWire
