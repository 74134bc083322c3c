import MessageWire.Proofs.Value.Reading
/-!
# What the formats write

Every value has one encoding, its least header and its elements, and every format writes exactly that
(`Format.Writes`): its size is told beforehand, a destination that has the room gets it at its front, and one that
has not is refused. The two ways of writing a collection come to the same bytes.
-/

namespace MessageWire

variable {α β : Type}

theorem putFront_of_le {data dst : Bytes} (h : data.length ≤ dst.length) :
    putFront data dst = (.ok data.length, data ++ dst.drop data.length) := by
  rw [putFront, if_pos ((reaches_iff _ _).mpr h)]
  simp [overwrite]

theorem putFront_of_lt {data dst : Bytes} (h : dst.length < data.length) :
    putFront data dst = (.error (.bufferOverflow data.length dst.length), dst) := by
  have hreach : ¬ reaches data.length dst = true := by
    rw [reaches_iff]
    omega
  rw [putFront, if_neg hreach]

theorem overwrite_append (front rest data : Bytes) :
    overwrite (front ++ rest) front.length data = front ++ data ++ rest.drop data.length := by
  rw [overwrite, List.take_left, ← List.drop_drop, List.drop_left]

/-- A format writes `code` for `v`, of the size that it told. -/
structure Format.Writes (f : Format α) (v : α) (code : Bytes) : Prop where
  encodedSize : f.encodedSize v = code.length
  write : ∀ dst, code.length ≤ dst.length → f.write v dst = (.ok code.length, code ++ dst.drop code.length)
  refused : ∀ dst, dst.length < code.length → ∃ e, (f.write v dst).1 = .error e

/-- A format reads `v` from `code`, whatever comes behind it. -/
def Format.ReadsBack (f : Format α) (code : Bytes) (v : α) : Prop := ∀ s, f.read (code ++ s) = .ok (v, code.length)

namespace Format

theorem writes_of_putFront {f : Format α} {v : α} {code : Bytes} (hsize : f.encodedSize v = code.length)
    (hwrite : ∀ dst, f.write v dst = putFront code dst) : f.Writes v code where
  encodedSize := hsize
  write dst h := by rw [hwrite, putFront_of_le h]
  refused dst h := ⟨_, by rw [hwrite, putFront_of_lt h]⟩

theorem Writes.required {f : Format (Option α)} {v : α} {code : Bytes} (h : f.Writes (some v) code) :
    (Format.required f).Writes v code :=
  ⟨h.encodedSize, h.write, h.refused⟩

theorem ReadsBack.required {f : Format (Option α)} {v : α} {code : Bytes} (h : f.ReadsBack code (some v)) :
    (Format.required f).ReadsBack code v := by
  intro s
  rw [read_required]
  simp only [h s]
  rfl

theorem behind_append (needed : Nat) (front body s : Bytes) :
    behind needed front.length body.length (front ++ (body ++ s)) = .ok body := by
  have hreach : reaches (front.length + body.length) (front ++ (body ++ s)) = true := by
    rw [reaches_iff, List.length_append, List.length_append]
    omega
  rw [behind, if_pos hreach, List.drop_left, List.take_left]

/-! ### Single elements -/

theorem writes_scalar (e : ElementCodec α) (v : α) : (scalar e).Writes v (e.encode v) :=
  writes_of_putFront (e.length_encode v).symm fun _ => rfl

theorem readsBack_scalar (e : ElementCodec α) (v : α) : (scalar e).ReadsBack (e.encode v) v := by
  intro s
  have hbehind := behind_append e.size [] (e.encode v) s
  rw [e.length_encode, List.nil_append, List.length_nil] at hbehind
  rw [read_scalar]
  simp only [hbehind, Except.bind, whole, e.decode_encode, e.length_encode]
  rfl

/-! ### Byte strings and text -/

def bytesCode (raw : Bytes) : Bytes := CountHeader.least raw.length ++ raw

theorem length_bytesCode (raw : Bytes) : (bytesCode raw).length = bytesSize raw.length := by
  rw [bytesCode, List.length_append, CountHeader.length_least, bytesSize]

theorem writeBytes_eq {raw : Bytes} (h : raw.length ≤ CountHeader.maxCount) (dst : Bytes) :
    writeBytes raw dst = putFront (bytesCode raw) dst := by
  have hshort : ¬ raw.length ≥ 0x100000000 := by
    unfold CountHeader.maxCount at h
    omega
  rw [writeBytes, if_neg hshort, CountHeader.bytes_some h, putFront, length_bytesCode]
  rfl

theorem writes_bytes {raw : Bytes} (h : raw.length ≤ CountHeader.maxCount) :
    optionalBytes.Writes (some raw) (bytesCode raw) :=
  writes_of_putFront (length_bytesCode raw).symm (writeBytes_eq h)

theorem readsBack_bytes {raw : Bytes} (h : raw.length ≤ CountHeader.maxCount) :
    optionalBytes.ReadsBack (bytesCode raw) (some raw) := by
  intro s
  show readBytes _ = _
  have hbehind := behind_append (CountHeader.sizeFor raw.length + raw.length) (CountHeader.least raw.length) raw s
  rw [CountHeader.length_least] at hbehind
  rw [readBytes_eq, readCounted, bytesCode, List.append_assoc, CountHeader.read_least_append h]
  simp only [bytesBody, hbehind]
  rw [List.length_append, CountHeader.length_least]
  rfl

theorem writes_text {t : String} (h : (Utf8.encode t).length ≤ CountHeader.maxCount) :
    optionalText.Writes (some t) (bytesCode (Utf8.encode t)) :=
  ⟨(writes_bytes h).encodedSize, (writes_bytes h).write, (writes_bytes h).refused⟩

theorem readsBack_text {t : String} (h : (Utf8.encode t).length ≤ CountHeader.maxCount) :
    optionalText.ReadsBack (bytesCode (Utf8.encode t)) (some t) := by
  intro s
  have hbytes : readBytes (bytesCode (Utf8.encode t) ++ s) = _ := readsBack_bytes h s
  show asText (readBytes _) = _
  rw [hbytes, asText]
  simp only [Utf8.decode?_encode]

/-! ### Collections -/

def listCode (c : Collection α) (vs : List α) : Bytes := CountHeader.least vs.length ++ c.codec.encodeAll vs

theorem length_listCode (c : Collection α) (vs : List α) :
    (listCode c vs).length = CountHeader.sizeFor vs.length + vs.length * c.elementSize := by
  rw [listCode, List.length_append, CountHeader.length_least, Codec.length_encodeAll, Collection.elementSize]

/-- A size that is told exactly, which is one below the largest word. -/
theorem encodedLength_eq {c : Collection α} {vs : List α} (h : c.encodedLength vs.length < maxWord) :
    c.encodedLength vs.length = (listCode c vs).length := by
  rw [length_listCode]
  unfold Collection.encodedLength saturate at h ⊢
  omega

/-- Elements with a size that is told exactly have a length that is a word. -/
theorem length_le_maxWord {c : Collection α} {count : Nat} (h : c.encodedLength count < maxWord) :
    count * c.elementSize ≤ maxWord := by
  unfold Collection.encodedLength saturate at h
  omega

theorem writeAll_eq (c : Collection α) {vs : List α} (h : vs.length ≤ CountHeader.maxCount)
    (hword : vs.length * c.elementSize ≤ maxWord) (dst : Bytes) :
    c.writeAll vs dst = putFront (listCode c vs) dst := by
  rw [Collection.writeAll, CountHeader.bytes_some h, c.bodyLength_of_le hword]
  rfl

theorem writeAll_of_lt (c : Collection α) {vs : List α} (h : vs.length ≤ CountHeader.maxCount) {dst : Bytes}
    (hroom : dst.length < (listCode c vs).length) : ∃ e, (c.writeAll vs dst).1 = .error e := by
  by_cases hword : vs.length * c.elementSize ≤ maxWord
  · rw [writeAll_eq c h hword, putFront_of_lt hroom]
    exact ⟨_, rfl⟩
  · rw [Collection.writeAll, CountHeader.bytes_some h, c.bodyLength_of_lt (Nat.lt_of_not_le hword)]
    exact ⟨_, rfl⟩

theorem fitting_of_le (c : Collection α) {room : Nat} {vs : List α} (h : vs.length * c.elementSize ≤ room) :
    c.fitting room vs = vs :=
  List.take_of_length_le ((Nat.le_div_iff_mul_le c.size_pos).mpr h)

theorem length_fitting_of_lt (c : Collection α) {room : Nat} {vs : List α} (h : room < vs.length * c.elementSize) :
    (c.fitting room vs).length < vs.length := by
  have hlt : room / c.elementSize < vs.length := (Nat.div_lt_iff_lt_mul c.size_pos).mpr h
  rw [Collection.fitting, List.length_take]
  omega

/-- Writing the header and then the elements one by one comes to the same as writing all of it. -/
theorem writeDeclared_of_le (c : Collection α) {vs : List α} (h : vs.length ≤ CountHeader.maxCount)
    (hword : vs.length * c.elementSize ≤ maxWord) {dst : Bytes} (hroom : (listCode c vs).length ≤ dst.length) :
    c.writeDeclared vs.length vs dst =
      (.ok (listCode c vs).length, listCode c vs ++ dst.drop (listCode c vs).length) := by
  have hlen := length_listCode c vs
  have hheader : (CountHeader.least vs.length).length ≤ dst.length := by
    rw [CountHeader.length_least]
    omega
  have hall : c.fitting (dst.length - CountHeader.sizeFor vs.length) vs = vs := fitting_of_le c (by omega)
  have hbytes := overwrite_append (CountHeader.least vs.length) (dst.drop (CountHeader.sizeFor vs.length))
    (c.codec.encodeAll vs)
  rw [CountHeader.length_least, List.drop_drop, Codec.length_encodeAll] at hbytes
  rw [Collection.writeDeclared, CountHeader.write, CountHeader.bytes_some h]
  simp only [putFront_of_le hheader, CountHeader.length_least, c.bodyLength_of_le hword, List.take_length, hall,
    Nat.lt_irrefl, if_false, ne_eq, not_true_eq_false, ← Codec.encodeAll_eq, hbytes]
  rw [hlen]
  rfl

theorem writeDeclared_of_lt (c : Collection α) {vs : List α} (h : vs.length ≤ CountHeader.maxCount) {dst : Bytes}
    (hroom : dst.length < (listCode c vs).length) : ∃ e, (c.writeDeclared vs.length vs dst).1 = .error e := by
  rw [length_listCode] at hroom
  rw [Collection.writeDeclared, CountHeader.write, CountHeader.bytes_some h]
  by_cases hheader : (CountHeader.least vs.length).length ≤ dst.length
  · rw [CountHeader.length_least] at hheader
    have hfew := length_fitting_of_lt c
      (show dst.length - CountHeader.sizeFor vs.length < vs.length * c.elementSize by omega)
    rw [← CountHeader.length_least] at hheader
    simp only [putFront_of_le hheader, CountHeader.length_least, List.take_length, if_pos hfew]
    cases c.bodyLength vs.length with
    | error e => exact ⟨_, rfl⟩
    | ok body => exact ⟨_, rfl⟩
  · simp only [putFront_of_lt (Nat.lt_of_not_le hheader)]
    exact ⟨_, rfl⟩

theorem write_list (h : Holder α β) (c : Collection α) (limits : StagingLimits) {v : β}
    (hcount : (h.toList v).length ≤ CountHeader.maxCount) (hword : (h.toList v).length * c.elementSize ≤ maxWord)
    {dst : Bytes} (hroom : (listCode c (h.toList v)).length ≤ dst.length) :
    (optionalCollection h c limits).write (some v) dst
      = (.ok (listCode c (h.toList v)).length,
        listCode c (h.toList v) ++ dst.drop (listCode c (h.toList v)).length) := by
  simp only [optionalCollection]
  split
  · rw [writeAll_eq c hcount hword, putFront_of_le hroom]
  -- The members do not lie in one piece, so they are written one by one.
  · exact writeDeclared_of_le c hcount hword hroom

theorem refused_list (h : Holder α β) (c : Collection α) (limits : StagingLimits) {v : β}
    (hcount : (h.toList v).length ≤ CountHeader.maxCount) {dst : Bytes}
    (hroom : dst.length < (listCode c (h.toList v)).length) :
    ∃ e, ((optionalCollection h c limits).write (some v) dst).1 = .error e := by
  simp only [optionalCollection]
  split
  · exact writeAll_of_lt c hcount hroom
  · exact writeDeclared_of_lt c hcount hroom

theorem writes_list (h : Holder α β) (c : Collection α) (limits : StagingLimits) {v : β}
    (hcount : (h.toList v).length ≤ CountHeader.maxCount) (hsize : c.encodedLength (h.toList v).length < maxWord) :
    (optionalCollection h c limits).Writes (some v) (listCode c (h.toList v)) where
  encodedSize := encodedLength_eq hsize
  write _ hroom := write_list h c limits hcount (length_le_maxWord hsize) hroom
  refused _ hroom := refused_list h c limits hcount hroom

theorem readsBack_list (h : Holder α β) (c : Collection α) (limits : StagingLimits) {vs : List α}
    (hcount : vs.length ≤ CountHeader.maxCount) (hword : vs.length * c.elementSize ≤ maxWord) :
    (optionalCollection h c limits).ReadsBack (listCode c vs) (some (h.ofList vs)) := by
  intro s
  have hbehind := behind_append (saturate (CountHeader.sizeFor vs.length + vs.length * c.elementSize))
    (CountHeader.least vs.length) (c.codec.encodeAll vs) s
  rw [CountHeader.length_least, Codec.length_encodeAll, ← Collection.elementSize] at hbehind
  have hread : c.read (listCode c vs ++ s) = .ok (some vs, (listCode c vs).length) := by
    rw [read_collection_eq, readCounted, listCode, List.append_assoc, CountHeader.read_least_append hcount]
    show elementsBody c _ _ _ = _
    rw [elementsBody_of_le hword, hbehind, List.length_append, CountHeader.length_least, Codec.length_encodeAll]
    show (c.codec.decodeAll (c.codec.encodeAll vs)).map _ = _
    rw [Codec.decodeAll_encodeAll c.codec c.size_pos]
    rfl
  simp only [optionalCollection, hread]
  rfl

/-! ### What has no encoding -/

theorem bytes_refused {raw : Bytes} (h : CountHeader.maxCount < raw.length) (dst : Bytes) :
    ∃ e, (optionalBytes.write (some raw) dst).1 = .error e := by
  change ∃ e, (writeBytes raw dst).1 = .error e
  rw [writeBytes, CountHeader.bytes_of_lt h]
  split
  · exact ⟨_, rfl⟩
  · split
    · exact ⟨_, rfl⟩
    · exact ⟨_, rfl⟩

theorem list_refused (h : Holder α β) (c : Collection α) (limits : StagingLimits) {v : β}
    (hcount : CountHeader.maxCount < (h.toList v).length) (dst : Bytes) :
    ∃ e, ((optionalCollection h c limits).write (some v) dst).1 = .error e := by
  simp only [optionalCollection]
  split
  · rw [Collection.writeAll, CountHeader.bytes_of_lt hcount]
    exact ⟨_, rfl⟩
  · rw [Collection.writeDeclared, CountHeader.write, CountHeader.bytes_of_lt hcount]
    exact ⟨_, rfl⟩

/-! ### Null -/

def nullCode : Bytes := [CountHeader.nullFlag]

theorem writes_null {f : Format (Option α)} (hsize : f.encodedSize none = 1)
    (hwrite : f.write none = CountHeader.write none) : f.Writes none nullCode :=
  writes_of_putFront hsize fun _ => by rw [hwrite]; rfl

end Format

end MessageWire
