import MessageWire.Value.Format
import MessageWire.Text
/-!
# Types

The types that values can have. A type has a name, which messages use, and a Lean type of values
(`Ty.Value`). Numbers of every kind are words of bits here: what a floating-point or signed number means
makes no difference to its encoding, so all bit patterns are kept, also those of not-a-number.

Element types, those of which collections are made, have a `Codec` (`Ty.codec?`): numbers and arrays of
them are plain, while truth values, characters and machine-sized integers are converted one by one.
-/

namespace MessageWire

/-! ### Numbers -/

/-- The numeric types of fixed width. -/
inductive Scalar where
  | u8 | u16 | u32 | u64 | u128
  | i8 | i16 | i32 | i64 | i128
  | f32 | f64
  deriving DecidableEq

namespace Scalar

def width : Scalar → Nat
  | u8 | i8 => 1
  | u16 | i16 => 2
  | u32 | i32 | f32 => 4
  | u64 | i64 | f64 => 8
  | u128 | i128 => 16

def name : Scalar → String
  | u8 => "u8"
  | u16 => "u16"
  | u32 => "u32"
  | u64 => "u64"
  | u128 => "u128"
  | i8 => "i8"
  | i16 => "i16"
  | i32 => "i32"
  | i64 => "i64"
  | i128 => "i128"
  | f32 => "f32"
  | f64 => "f64"

def all : List Scalar := [u8, u16, u32, u64, u128, i8, i16, i32, i64, i128, f32, f64]

theorem mem_all (s : Scalar) : s ∈ all := by
  cases s <;> simp [all]

abbrev Word (s : Scalar) : Type := BitVec (8 * s.width)

theorem width_pos (s : Scalar) : 0 < s.width := by
  cases s <;> decide

end Scalar

/-! ### Kinds of collections -/

/-- The kinds of collections. They share one encoding. -/
inductive Shape where
  | list
  | boxed
  | shared
  /-- A list that grows at both ends, whose members need not lie in one piece. -/
  | deque
  | segment
  deriving DecidableEq

namespace Shape

def all : List Shape := [list, boxed, shared, deque, segment]

theorem mem_all (shape : Shape) : shape ∈ all := by
  cases shape <;> simp [all]

/-- The values of a kind of collection with the given members. -/
@[reducible] def Value : Shape → Type → Type
  | segment, α => Segment α
  | _, α => List α

def holder (α : Type) : (shape : Shape) → Format.Holder α (shape.Value α)
  | list => ⟨id, id, true, fun _ => rfl⟩
  | boxed => ⟨id, id, true, fun _ => rfl⟩
  | shared => ⟨id, id, true, fun _ => rfl⟩
  | deque => ⟨id, id, false, fun _ => rfl⟩
  | segment => ⟨Segment.toList, Segment.ofList, true, Segment.toList_ofList⟩

/-- The name of the collection type of a kind whose elements have the given name. -/
def name : Shape → String → String
  | list, element => s!"alloc::vec::Vec<{element}>"
  | boxed, element => s!"alloc::boxed::Box<[{element}]>"
  | shared, element => s!"alloc::sync::Arc<[{element}]>"
  | deque, element => s!"alloc::collections::vec_deque::VecDeque<{element}>"
  | segment, element => s!"rpcwire_serial::collection::Segment<{element}>"

end Shape

/-! ### Types -/

/-- The types of values. Not every type has a format. -/
inductive Ty where
  | scalar (s : Scalar)
  | array (s : Scalar) (n : Nat)
  | bool
  | char
  | usize
  | isize
  | text
  | bytes
  | collection (shape : Shape) (element : Ty)
  | option (t : Ty)
  deriving DecidableEq

namespace Ty

/-- The width of the machine-sized integers on the wire, in bytes. -/
abbrev machineWidth : Nat := 8

@[reducible] def Value : Ty → Type
  | scalar s => s.Word
  | array s n => Vector s.Word n
  | bool => Bool
  | char => Char
  | usize => BitVec (8 * machineWidth)
  | isize => BitVec (8 * machineWidth)
  | text => String
  | bytes => Bytes
  | collection shape element => shape.Value element.Value
  | option t => Option t.Value

def name : Ty → String
  | scalar s => s.name
  | array s n => s!"[{s.name}; {n}]"
  | bool => "bool"
  | char => "char"
  | usize => "usize"
  | isize => "isize"
  | text => "alloc::string::String"
  | bytes => "bytes::bytes::Bytes"
  | collection shape element => shape.name element.name
  | option t => s!"core::option::Option<{t.name}>"

/-! ### Element types -/

/-- How the values of a type lie in memory, for the types whose memory is all there is to a value. -/
def plain? : (t : Ty) → Option (Plain t.Value)
  | scalar s => some (.word s.width)
  | array s n => some (.array (.word s.width) n)
  | usize => some (.word machineWidth)
  | isize => some (.word machineWidth)
  | _ => none

/-- Truth values are one byte, and every byte but zero is true. -/
def boolCodec (order : ByteOrder) : ElementCodec Bool :=
  .converted (.word 1) order (fun b => if b then 1 else 0) (fun w => .ok (w != 0))
    (by intro b; cases b <;> rfl)

def charOfWord (w : BitVec (8 * 4)) : Except ValueError Char :=
  if w.toNat.isValidChar then .ok (Char.ofNat w.toNat)
  else .error (.invalidValue "char" (Text.hex 1 w.toNat ++ " is not a scalar value"))

def charCodec (order : ByteOrder) : ElementCodec Char :=
  .converted (.word 4) order (fun c => BitVec.ofNat (8 * 4) c.toNat) charOfWord fun c => by
    have hvalid : c.toNat.isValidChar := c.valid
    have hlt : c.toNat < 2 ^ (8 * 4) := c.val.toNat_lt
    rw [charOfWord, BitVec.toNat_ofNat, Nat.mod_eq_of_lt hlt, if_pos hvalid, Char.ofNat_toNat]

/-- Machine-sized integers are words of one width on every machine. -/
def machineCodec (order : ByteOrder) : ElementCodec (BitVec (8 * machineWidth)) :=
  .converted (.word machineWidth) order id .ok fun _ => rfl

/-- The encoding of the elements of a type, for machines of the given byte order. -/
def codec? : (t : Ty) → ByteOrder → Option (Codec t.Value)
  | scalar s, order => some (.block (.word s.width) order)
  | array s n, order => some (.block (.array (.word s.width) n) order)
  | bool, order => some (.loop (boolCodec order))
  | char, order => some (.loop (charCodec order))
  | usize, order => some (.loop (machineCodec order))
  | isize, order => some (.loop (machineCodec order))
  | _, _ => none

end Ty

end MessageWire
