import MessageWire.Proofs.Value.Stock
/-!
# Encoding what was decoded

A value may be read from bytes that it is not written as: a header may be longer than it has to be and have bits that
mean nothing, and every byte but zero is a true truth value. Nothing else is lost. What a format of the library reads it
writes as the least header and the body that it read, with one byte for all that are true (`Format.Supplied.recodes`),
so as the bytes that were read if these are canonical, and only then (`Ty.recoded_eq_iff`).
-/

namespace MessageWire

variable {α β : Type}

/-! ### Headers -/

namespace CountHeader

variable {src : Bytes} {count size : Nat}

theorem classWidth_le_of_lt {k : Nat} (h : count < 1 <<< (8 * classWidth k)) :
    classWidth (widthClass count) ≤ classWidth k := by
  unfold widthClass
  match k with
  | 0 =>
    have hzero : count = 0 := by simpa [classWidth] using h
    simp [hzero]
  | 1 =>
    have hlt : count < 256 := by simpa [classWidth] using h
    rw [if_pos hlt]
    split <;> simp [classWidth]
  | 2 =>
    have hlt : count < 65536 := by simpa [classWidth] using h
    rw [if_pos hlt]
    repeat' split
    all_goals simp [classWidth]
  | k + 3 =>
    repeat' split
    all_goals simp [classWidth]

theorem sizeFor_le_of_read (h : read src = .ok ⟨some count, size⟩) :
    count ≤ maxCount ∧ sizeFor count ≤ size := by
  obtain ⟨flag, rest, rfl, ⟨-, hnull⟩ | ⟨-, hle, hsize, hcount⟩⟩ := read_eq_ok h
  · cases hnull
  · unfold ofCountBytes at hcount
    simp only at hcount
    split at hcount
    · cases hcount
    · cases hcount
      have hlt := ofLittleEndian_lt (rest.take (announcedWidth flag))
      rw [List.length_take, Nat.min_eq_left hle] at hlt ⊢
      exact ⟨by omega, Nat.add_le_add_left (classWidth_le_of_lt hlt) 1⟩

theorem size_of_read_null (h : read src = .ok ⟨none, size⟩) : size = 1 := by
  obtain ⟨flag, rest, rfl, ⟨-, hnull⟩ | ⟨-, -, -, hcount⟩⟩ := read_eq_ok h
  · cases hnull
    rfl
  · unfold ofCountBytes at hcount
    simp only at hcount
    split at hcount <;> cases hcount

end CountHeader

/-! ### Canonical bytes -/

namespace Ty

/-- Whether the values of a type are encoded behind a count header. -/
def isCounted : Ty → Bool
  | text | bytes | collection _ _ => true
  | option t => t.isCounted
  | _ => false

/-- The type of the elements that values of a type are encoded as. -/
def element : Ty → Ty
  | collection _ element => element
  | option t => t.element
  | t => t

/-- The header that a value of the type is read behind. -/
def header? (t : Ty) (src : Bytes) : Option CountHeader :=
  if t.isCounted then (CountHeader.read src).toOption else none

def headerSize (t : Ty) (src : Bytes) : Nat := (t.header? src).elim 0 (·.size)

/-- What is behind the header in the first `n` bytes of `src`. -/
def body (t : Ty) (src : Bytes) (n : Nat) : Bytes := (src.take n).drop (t.headerSize src)

/-- The header that is written is for the same count as the one that was read, or none if none was read. -/
def HeaderFor (t : Ty) (src header : Bytes) : Prop :=
  match t.header? src with
  | some read => CountHeader.bytes read.count? = .ok header
  | none => header = []

/-- What is written where `b` was read in an element of the type. -/
def settled (t : Ty) (b : UInt8) : UInt8 := if t = .bool ∧ b ≠ 0 then 1 else b

/-- The first `n` bytes of `src` are bytes that a value is written as: the least header, and truth values of zero or
one. -/
def Canonical (t : Ty) (src : Bytes) (n : Nat) : Prop :=
  t.HeaderFor src (src.take (t.headerSize src)) ∧ (t.element = .bool → ∀ b ∈ t.body src n, b = 0 ∨ b = 1)

variable {t : Ty} {src header : Bytes} {n : Nat}

theorem map_settled (ht : t ≠ .bool) (bs : Bytes) : bs.map t.settled = bs := by
  have hsame : t.settled = id := funext fun b => if_neg fun h => ht h.1
  rw [hsame, List.map_id]

theorem settled_bool_eq_iff (b : UInt8) : settled .bool b = b ↔ b = 0 ∨ b = 1 := by
  by_cases hb : b = 0
  · simp [settled, hb]
  · simp [settled, hb, eq_comm (b := b)]

theorem map_settled_eq_iff {bs : Bytes} : bs.map t.settled = bs ↔ (t = .bool → ∀ b ∈ bs, b = 0 ∨ b = 1) := by
  by_cases ht : t = .bool
  · subst ht
    have hself : bs.map (settled .bool) = bs ↔ bs.map (settled .bool) = bs.map id := by rw [List.map_id]
    simp only [hself, List.map_inj_left, id_eq, settled_bool_eq_iff, true_implies]
  · exact iff_of_true (map_settled ht bs) fun h => absurd h ht

theorem header?_eq_some_iff {read : CountHeader} :
    t.header? src = some read ↔ t.isCounted = true ∧ CountHeader.read src = .ok read := by
  unfold header?
  cases CountHeader.read src <;> simp [Except.toOption]

theorem header?_of_not_counted (ht : t.isCounted = false) : t.header? src = none := by
  simp [header?, ht]

theorem headerSize_of_read (ht : t.isCounted = true) {read : CountHeader} (h : CountHeader.read src = .ok read) :
    t.headerSize src = read.size := by
  rw [headerSize, header?_eq_some_iff.mpr ⟨ht, h⟩]
  rfl

theorem headerFor_iff_of_read (ht : t.isCounted = true) {read : CountHeader} (h : CountHeader.read src = .ok read) :
    t.HeaderFor src header ↔ CountHeader.bytes read.count? = .ok header := by
  rw [HeaderFor, header?_eq_some_iff.mpr ⟨ht, h⟩]

theorem HeaderFor.unique {header' : Bytes} (h : t.HeaderFor src header) (h' : t.HeaderFor src header') :
    header = header' := by
  unfold HeaderFor at h h'
  cases hread : t.header? src with
  | none =>
    rw [hread] at h h'
    exact h.trans h'.symm
  | some read =>
    rw [hread] at h h'
    exact Except.ok.inj (h.symm.trans h')

theorem HeaderFor.length_le (h : t.HeaderFor src header) : header.length ≤ t.headerSize src := by
  unfold HeaderFor at h
  unfold headerSize
  cases hread : t.header? src with
  | none =>
    rw [hread] at h
    rw [h]
    exact Nat.le_refl 0
  | some read =>
    rw [hread] at h
    obtain ⟨-, hread⟩ := header?_eq_some_iff.mp hread
    obtain ⟨_ | count, size⟩ := read
    · cases h
      exact Nat.le_of_eq (CountHeader.size_of_read_null hread).symm
    · obtain ⟨hcount, hsize⟩ := CountHeader.sizeFor_le_of_read hread
      change CountHeader.bytes (some count) = _ at h
      rw [CountHeader.bytes_some hcount] at h
      cases h
      rwa [CountHeader.length_least]

/-- What is written is what was read, exactly if that is canonical. -/
theorem recoded_eq_iff (h : t.HeaderFor src header) (hle : t.headerSize src ≤ n) :
    header ++ (t.body src n).map t.element.settled = src.take n ↔ t.Canonical src n := by
  have hsplit : src.take (t.headerSize src) ++ t.body src n = src.take n := by
    rw [body, ← Nat.min_eq_left hle, ← List.take_take, Nat.min_eq_left hle, List.take_append_drop]
  rw [← hsplit, Canonical, ← map_settled_eq_iff]
  constructor
  · intro hall
    obtain ⟨hheader, hbody⟩ := List.append_inj' hall (List.length_map _)
    exact ⟨hheader ▸ h, hbody⟩
  · rintro ⟨hheader, hbody⟩
    rw [h.unique hheader, hbody]

end Ty

/-! ### Elements -/

namespace ElementCodec

/-- What was decoded is encoded as the same bytes, with `g` applied to each. -/
def Recodes (e : ElementCodec α) (g : UInt8 → UInt8) : Prop :=
  ∀ bs a, bs.length = e.size → e.decode bs = .ok a → e.encode a = bs.map g

variable {e : ElementCodec α} {g : UInt8 → UInt8} {t : Ty}

theorem image_ofImage_turn (p : Plain β) (order : ByteOrder) (ht : t ≠ .bool) {bs : Bytes}
    (hlen : bs.length = p.size) :
    order.turn p.size (p.image (p.ofImage (order.turn p.size bs))) = bs.map t.settled := by
  rw [p.image_ofImage _ (by rw [length_turn, hlen]), turn_turn order hlen, Ty.map_settled ht]

theorem recodes_plain (p : Plain α) (order : ByteOrder) (ht : t ≠ .bool) : (plain p order).Recodes t.settled := by
  intro bs a hlen hdecode
  cases hdecode
  exact image_ofImage_turn p order ht hlen

theorem recodes_converted (p : Plain β) (order : ByteOrder) {toWire : α → β} {ofWire : β → Except ValueError α}
    {ofWire_toWire : ∀ a, ofWire (toWire a) = .ok a} (ht : t ≠ .bool)
    (hexact : ∀ w a, ofWire w = .ok a → toWire a = w) :
    (converted p order toWire ofWire ofWire_toWire).Recodes t.settled := by
  intro bs a hlen hdecode
  change order.turn p.size (p.image (toWire a)) = _
  rw [hexact _ _ hdecode]
  exact image_ofImage_turn p order ht hlen

theorem recodes_machine (order : ByteOrder) (ht : t ≠ .bool) : (Ty.machineCodec order).Recodes t.settled := by
  apply recodes_converted _ _ ht
  intro w a hword
  cases hword
  rfl

theorem recodes_char (order : ByteOrder) (ht : t ≠ .bool) : (Ty.charCodec order).Recodes t.settled := by
  apply recodes_converted _ _ ht
  intro w c hchar
  unfold Ty.charOfWord at hchar
  split at hchar
  case isTrue hvalid =>
    cases hchar
    have hnat : (Char.ofNat w.toNat).toNat = w.toNat := by
      rw [Char.ofNat, dif_pos hvalid]
      rfl
    rw [hnat, BitVec.ofNat_toNat, BitVec.setWidth_eq]
  case isFalse => cases hchar

theorem decode_bool (order : ByteOrder) (b : UInt8) : (Ty.boolCodec order).decode [b] = .ok (b != 0) := by
  have hturn : order.turn 1 [b] = [b] := by cases order <;> rfl
  have hword : BitVec.ofNat 8 (b.toNat + 256 * 0) = b.toBitVec := by simp
  change Except.ok (BitVec.ofNat 8 (ofLittleEndian (order.turn 1 [b])) != 0) = _
  rw [hturn, ofLittleEndian, ofLittleEndian, hword]
  congr 1
  by_cases hb : b = 0
  · subst hb
    rfl
  · have hne : b.toBitVec ≠ 0 := fun h => hb (UInt8.eq_of_toBitVec_eq h)
    rw [bne_iff_ne.mpr hb, bne_iff_ne.mpr hne]

theorem encode_bool (order : ByteOrder) (v : Bool) : (Ty.boolCodec order).encode v = [if v then 1 else 0] := by
  cases order <;> cases v <;> rfl

theorem recodes_bool (order : ByteOrder) : (Ty.boolCodec order).Recodes (Ty.settled .bool) := by
  intro bs v hlen hdecode
  obtain ⟨b, rfl⟩ := List.length_eq_one_iff.mp hlen
  rw [decode_bool] at hdecode
  cases hdecode
  rw [encode_bool]
  by_cases hb : b = 0
  · simp [hb, Ty.settled]
  · simp [hb, Ty.settled]

theorem Recodes.encodeList (h : e.Recodes g) {bss : List Bytes} {vs : List α}
    (hlen : ∀ bs ∈ bss, bs.length = e.size) (hdecode : bss.mapM e.decode = .ok vs) :
    e.encodeList vs = bss.flatten.map g := by
  induction bss generalizing vs with
  | nil =>
    cases hdecode
    rfl
  | cons bs bss ih =>
    rw [List.mapM_cons] at hdecode
    obtain ⟨v, hv, hrest⟩ := of_bind_eq_ok hdecode
    obtain ⟨vs', hvs, hall⟩ := of_bind_eq_ok hrest
    cases hall
    have hfirst := h bs v (hlen bs List.mem_cons_self) hv
    have hlater := ih (fun bs' hbs => hlen bs' (List.mem_cons_of_mem _ hbs)) hvs
    rw [List.flatten_cons, List.map_append, ← hfirst, ← hlater, ElementCodec.encodeList, List.flatMap_cons,
      ElementCodec.encodeList]

end ElementCodec

theorem Codec.encodeAll_of_decodeAll {c : Codec α} (hpos : 0 < c.size) {g : UInt8 → UInt8} (h : c.element.Recodes g)
    {bs : Bytes} {vs : List α} {count : Nat} (hlen : bs.length = count * c.size) (hdecode : c.decodeAll bs = .ok vs) :
    c.encodeAll vs = bs.map g := by
  have hflatten : (blocks c.size bs).flatten = bs := by
    rw [flatten_blocks, hlen, Nat.mul_div_cancel _ hpos, ← hlen, List.take_length]
  have hblocks : ∀ block ∈ blocks c.size bs, block.length = c.element.size := fun _ => length_of_mem_blocks
  rw [decodeAll_eq c hpos] at hdecode
  rw [encodeAll_eq, h.encodeList hblocks hdecode, hflatten]

/-! ### Codecs and formats that the library supplies -/

namespace Codec

/-- The codecs that the library has for the elements of a type: its own, and those of types that are nothing but
their memory. -/
inductive Supplied : (t : Ty) → Codec t.Value → Prop where
  | own {t : Ty} {order : ByteOrder} {codec : Codec t.Value} (h : t.codec? order = some codec) : Supplied t codec
  | plain {t : Ty} (ht : t.plain?.isSome) (p : Plain t.Value) (order : ByteOrder) : Supplied t (.block p order)

variable {t : Ty} {codec : Codec t.Value}

theorem Supplied.recodes (h : codec.Supplied t) : codec.element.Recodes t.settled := by
  cases h with
  | plain ht p order =>
    apply ElementCodec.recodes_plain
    rintro rfl
    cases ht
  | own h =>
    cases t with
    | scalar s =>
      cases h
      exact ElementCodec.recodes_plain _ _ nofun
    | array s n =>
      cases h
      exact ElementCodec.recodes_plain _ _ nofun
    | bool =>
      cases h
      exact ElementCodec.recodes_bool _
    | char =>
      cases h
      exact ElementCodec.recodes_char _ nofun
    | usize =>
      cases h
      exact ElementCodec.recodes_machine _ nofun
    | isize =>
      cases h
      exact ElementCodec.recodes_machine _ nofun
    | text | bytes | collection _ _ | option _ => cases h

theorem Supplied.not_counted (h : codec.Supplied t) : t.isCounted = false ∧ t.element = t := by
  cases h with
  | own h => cases t <;> first | exact ⟨rfl, rfl⟩ | cases h
  | plain ht => cases t <;> first | exact ⟨rfl, rfl⟩ | cases ht

end Codec

namespace Format

/-- The formats that the library builds with its own codecs. -/
inductive Supplied : (t : Ty) → Format t.Value → Prop where
  | single {t : Ty} {codec : Codec t.Value} (h : codec.Supplied t) : Supplied t (scalar codec.element)
  | text : Supplied .text text
  | optionalText : Supplied (.option .text) optionalText
  | bytes : Supplied .bytes bytes
  | collection (shape : Shape) {element : Ty} (c : Collection element.Value) (h : c.codec.Supplied element)
      (limits : StagingLimits) :
    Supplied (.collection shape element) (collection (shape.holder element.Value) c limits)
  | optionalCollection (shape : Shape) {element : Ty} (c : Collection element.Value) (h : c.codec.Supplied element)
      (limits : StagingLimits) :
    Supplied (.option (.collection shape element)) (optionalCollection (shape.holder element.Value) c limits)

variable {t : Ty}

theorem Supplied.stock {f : Format t.Value} (h : Supplied t f) : Stock (fun _ => True) t f := by
  cases h with
  | single _ => exact .single _
  | text => exact .text
  | optionalText => exact .optionalText
  | bytes => exact .bytes
  | collection shape c _ limits => exact .collection shape c trivial
  | optionalCollection shape c _ limits => exact .optionalCollection shape c trivial

/-- A format tells no more than the size of `code` for `v`, and writes it if its size is a word. -/
structure Encodes (f : Format α) (v : α) (code : Bytes) : Prop where
  encodedSize_le : f.encodedSize v ≤ code.length
  writes : code.length ≤ maxWord → f.Writes v code

theorem Writes.encodes {f : Format α} {v : α} {code : Bytes} (h : f.Writes v code) : f.Encodes v code :=
  ⟨Nat.le_of_eq h.encodedSize, fun _ => h⟩

/-- Every value that is read is written as the header for what was read and the body that was read, but for truth
values. -/
def Recodes (f : Format t.Value) : Prop :=
  ∀ src v n, f.read src = .ok (v, n) → t.headerSize src ≤ n ∧
    ∃ header, t.HeaderFor src header ∧ f.Encodes v (header ++ (t.body src n).map t.element.settled)

theorem Recodes.required {f : Format (Option t.Value)} (h : Recodes (t := .option t) f) :
    Recodes (t := t) (Format.required f) := by
  intro src v n hread
  rw [read_required] at hread
  obtain ⟨⟨_ | w, n'⟩, hread, hnull⟩ := of_bind_eq_ok hread
  · cases hnull
  · cases hnull
    obtain ⟨hsize, header, hheader, hencodes⟩ := h src (some v) n hread
    exact ⟨hsize, header, hheader, hencodes.encodedSize_le, fun hword => (hencodes.writes hword).required⟩

theorem of_behind_eq_ok {needed size length : Nat} {w bs : Bytes} (h : behind needed size length w = .ok bs) :
    bs.length = length ∧ bs = (w.take (size + length)).drop size := by
  unfold behind at h
  split at h
  case isTrue hreach =>
    cases h
    rw [reaches_iff] at hreach
    rw [List.drop_take, Nat.add_sub_cancel_left]
    refine ⟨?_, rfl⟩
    rw [List.length_take, List.length_drop]
    omega
  case isFalse => cases h

theorem recodes_scalar {e : ElementCodec t.Value} (he : e.Recodes t.settled) (ht : t.isCounted = false)
    (helement : t.element = t) : Recodes (scalar e) := by
  intro src v n hread
  rw [read_scalar] at hread
  obtain ⟨bs, hbehind, hwhole⟩ := of_bind_eq_ok hread
  obtain ⟨hlen, hbs⟩ := of_behind_eq_ok hbehind
  rw [whole, map_eq_bind] at hwhole
  obtain ⟨_, hdecode, hsame⟩ := of_bind_eq_ok hwhole
  cases hsame
  have hnone : t.header? src = none := Ty.header?_of_not_counted ht
  have hsize : t.headerSize src = 0 := by rw [Ty.headerSize, hnone]; rfl
  refine ⟨by rw [hsize]; exact Nat.zero_le _, [], by rw [Ty.HeaderFor, hnone], ?_⟩
  rw [Nat.zero_add] at hbs
  rw [Ty.body, hsize, helement, ← hbs, List.nil_append, ← he bs v hlen hdecode]
  exact (writes_scalar e v).encodes

/-! ### Behind a header -/

variable {src : Bytes} {n : Nat}

theorem of_readCounted {body : Nat → Nat → Bytes → Except ValueError (Option α × Nat)} {a? : Option α}
    (h : readCounted body src = .ok (a?, n)) :
    (CountHeader.read src = .ok ⟨none, 1⟩ ∧ n = 1 ∧ a? = none) ∨
      ∃ count size, CountHeader.read src = .ok ⟨some count, size⟩ ∧ body count size src = .ok (a?, n) := by
  unfold readCounted at h
  split at h
  · cases h
  · rename_i size hheader
    cases h
    obtain rfl := CountHeader.size_of_read_null hheader
    exact .inl ⟨hheader, rfl, rfl⟩
  · rename_i count size hheader
    exact .inr ⟨count, size, hheader, h⟩

/-- What is behind a header that was read. -/
structure Behind (t : Ty) (src : Bytes) (n count : Nat) (body : Bytes) : Prop where
  count_le : count ≤ CountHeader.maxCount
  size_le : t.headerSize src ≤ n
  header : t.HeaderFor src (CountHeader.least count)
  body_eq : t.body src n = body

theorem behind_of_read {needed count size length : Nat} {bs : Bytes} (ht : t.isCounted = true)
    (hheader : CountHeader.read src = .ok ⟨some count, size⟩) (hbehind : behind needed size length src = .ok bs) :
    Behind t src (size + length) count bs := by
  have hcount := (CountHeader.sizeFor_le_of_read hheader).1
  have hsize := Ty.headerSize_of_read ht hheader
  refine ⟨hcount, ?_, ?_, ?_⟩
  · rw [hsize]
    exact Nat.le_add_right _ _
  · rw [Ty.headerFor_iff_of_read ht hheader]
    exact CountHeader.bytes_some hcount
  · rw [(of_behind_eq_ok hbehind).2, Ty.body, hsize]

theorem recodes_null {f : Format (Option t.Value)} (ht : t.isCounted = true)
    (hread : CountHeader.read src = .ok ⟨none, 1⟩) (hsize : f.encodedSize none = 1)
    (hwrite : f.write none = CountHeader.write none) :
    (Ty.option t).headerSize src ≤ 1 ∧
      ∃ header, (Ty.option t).HeaderFor src header ∧
        f.Encodes none (header ++ ((Ty.option t).body src 1).map (Ty.option t).element.settled) := by
  have ht' : (Ty.option t).isCounted = true := ht
  have hheaderSize := Ty.headerSize_of_read ht' hread
  have hbody : (Ty.option t).body src 1 = [] := by
    rw [Ty.body, hheaderSize]
    exact List.drop_of_length_le (List.length_take_le _ _)
  refine ⟨Nat.le_of_eq hheaderSize, nullCode, (Ty.headerFor_iff_of_read ht' hread).mpr rfl, ?_⟩
  rw [hbody]
  exact (writes_null hsize hwrite).encodes

/-! ### Byte strings and text -/

theorem behind_of_readBytes {raw : Bytes} (ht : t.isCounted = true) (h : readBytes src = .ok (some raw, n)) :
    Behind t src n raw.length raw := by
  rw [readBytes_eq] at h
  obtain ⟨-, -, hnull⟩ | ⟨count, size, hheader, hbody⟩ := of_readCounted h
  · cases hnull
  · obtain ⟨_, hbehind, hsame⟩ := of_bind_eq_ok hbody
    cases hsame
    have hall := behind_of_read ht hheader hbehind
    rwa [← (of_behind_eq_ok hbehind).1] at hall ⊢

theorem null_of_readBytes (h : readBytes src = .ok (none, n)) : CountHeader.read src = .ok ⟨none, 1⟩ ∧ n = 1 := by
  rw [readBytes_eq] at h
  obtain ⟨hheader, hsize, -⟩ | ⟨count, size, -, hbody⟩ := of_readCounted h
  · exact ⟨hheader, hsize⟩
  · obtain ⟨_, -, hnull⟩ := of_bind_eq_ok hbody
    cases hnull

theorem recodes_optionalBytes : Recodes (t := .option .bytes) optionalBytes := by
  intro src v n hread
  cases v with
  | none =>
    obtain ⟨hheader, rfl⟩ := null_of_readBytes hread
    exact recodes_null (t := .bytes) rfl hheader rfl rfl
  | some raw =>
    have hall := behind_of_readBytes (t := .option .bytes) rfl hread
    have hne : (Ty.option .bytes).element ≠ .bool := by decide
    refine ⟨hall.size_le, _, hall.header, ?_⟩
    rw [hall.body_eq, Ty.map_settled hne]
    exact (writes_bytes hall.count_le).encodes

theorem recodes_optionalText : Recodes (t := .option .text) optionalText := by
  intro src v n hread
  change asText (readBytes src) = .ok (v, n) at hread
  rw [asText_eq] at hread
  obtain ⟨⟨_ | raw, _⟩, hread, htext⟩ := of_bind_eq_ok hread
  · cases htext
    obtain ⟨hheader, rfl⟩ := null_of_readBytes hread
    exact recodes_null (t := .text) rfl hheader rfl rfl
  · unfold textOf at htext
    simp only at htext
    split at htext
    case h_2 => cases htext
    case h_1 text hdecode =>
      cases htext
      rw [← Utf8.encode_of_decode? hdecode] at hread
      have hall := behind_of_readBytes (t := .option .text) rfl hread
      have hne : (Ty.option .text).element ≠ .bool := by decide
      refine ⟨hall.size_le, _, hall.header, ?_⟩
      rw [hall.body_eq, Ty.map_settled hne]
      exact (writes_text hall.count_le).encodes

/-! ### Collections -/

/-- A size that is a word is told exactly, and a larger one as the largest word. -/
theorem encodes_list (h : Holder α β) (c : Collection α) (limits : StagingLimits) {vs : List α}
    (hcount : vs.length ≤ CountHeader.maxCount) :
    (optionalCollection h c limits).Encodes (some (h.ofList vs)) (listCode c vs) := by
  have hsize : (optionalCollection h c limits).encodedSize (some (h.ofList vs)) = saturate (listCode c vs).length := by
    change c.encodedLength (h.toList (h.ofList vs)).length = _
    rw [h.toList_ofList, length_listCode]
    unfold Collection.encodedLength saturate
    omega
  refine ⟨?_, fun hword => ⟨?_, fun dst hroom => ?_, fun dst hroom => ?_⟩⟩
  · rw [hsize]
    exact Nat.min_le_left _ _
  · rw [hsize]
    exact Nat.min_eq_left hword
  · have hwhole : vs.length * c.elementSize ≤ maxWord := by
      rw [length_listCode] at hword
      omega
    rw [← h.toList_ofList vs] at hcount hwhole hroom
    have hwrite := write_list h c limits hcount hwhole hroom
    rwa [h.toList_ofList] at hwrite
  · rw [← h.toList_ofList vs] at hcount hroom
    exact refused_list h c limits hcount hroom

theorem of_elementsBody_eq_ok {c : Collection α} {count size : Nat} {a : Option (List α) × Nat}
    (h : elementsBody c count size src = .ok a) :
    ∃ bs vs, behind (saturate (size + count * c.elementSize)) size (count * c.elementSize) src = .ok bs ∧
      c.codec.decodeAll bs = .ok vs ∧ a = (some vs, size + count * c.elementSize) := by
  have hword : count * c.elementSize ≤ maxWord := by
    apply Decidable.byContradiction
    intro hlong
    rw [elementsBody_of_lt (Nat.lt_of_not_le hlong)] at h
    cases h
  rw [elementsBody_of_le hword] at h
  obtain ⟨bs, hbehind, helements⟩ := of_bind_eq_ok h
  rw [elementsOf, map_eq_bind] at helements
  obtain ⟨vs, hdecode, hsame⟩ := of_bind_eq_ok helements
  cases hsame
  exact ⟨bs, vs, hbehind, hdecode, rfl⟩

theorem recodes_optionalCollection (shape : Shape) {element : Ty} (c : Collection element.Value)
    (hc : c.codec.element.Recodes element.settled) (limits : StagingLimits) :
    Recodes (t := .option (.collection shape element)) (optionalCollection (shape.holder element.Value) c limits) := by
  intro src v n hread
  change (c.read src).map (optionalCollection.hold _) = .ok (v, n) at hread
  rw [map_eq_bind, read_collection_eq] at hread
  obtain ⟨⟨vs?, _⟩, hread, hsame⟩ := of_bind_eq_ok hread
  cases hsame
  obtain ⟨hheader, rfl, rfl⟩ | ⟨count, size, hheader, hbody⟩ := of_readCounted hread
  · exact recodes_null (t := .collection shape element) rfl hheader rfl rfl
  · obtain ⟨bs, vs, hbehind, hdecode, hsame⟩ := of_elementsBody_eq_ok hbody
    cases hsame
    have hlen := (of_behind_eq_ok hbehind).1
    have hall := behind_of_read (t := .option (.collection shape element)) rfl hheader hbehind
    have hcode : c.codec.encodeAll vs = bs.map (Ty.option (.collection shape element)).element.settled :=
      Codec.encodeAll_of_decodeAll c.size_pos hc hlen hdecode
    have hcount : vs.length = count := by
      rw [c.codec.length_of_decodeAll c.size_pos hdecode, hlen]
      exact Nat.mul_div_cancel _ c.size_pos
    refine ⟨hall.size_le, _, hall.header, ?_⟩
    rw [hall.body_eq, ← hcode, ← hcount]
    exact encodes_list (shape.holder element.Value) c limits (hcount ▸ hall.count_le)

/-- **Formats of the library write a value as it was read**, but for the header and truth values. -/
theorem Supplied.recodes {f : Format t.Value} (h : Supplied t f) : f.Recodes := by
  cases h with
  | single h => exact recodes_scalar h.recodes h.not_counted.1 h.not_counted.2
  | text => exact recodes_optionalText.required
  | optionalText => exact recodes_optionalText
  | bytes => exact recodes_optionalBytes.required
  | collection shape c h limits => exact (recodes_optionalCollection shape c h.recodes limits).required
  | optionalCollection shape c h limits => exact recodes_optionalCollection shape c h.recodes limits

end Format

end MessageWire
