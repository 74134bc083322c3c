import MessageWire.Proofs.Value.Staging
import MessageWire.Value.Format
/-!
# How the formats read

Every format that the library builds reads lawfully: from a buffer it looks at no byte behind those it takes
(`LocalRead`), and from a steady stream it reads as from a buffer with the same bytes, however the stream cuts them
(`Format.Follows`). The second law holds if there can be buffers for the pool. Formats are built from one another, and
so are the laws.
-/

namespace MessageWire

variable {α β : Type}

/-! ### Reads that follow one another -/

theorem of_bind_eq_ok {read : Except ValueError α} {g : α → Except ValueError β} {b : β}
    (h : read.bind g = .ok b) :
    ∃ a, read = .ok a ∧ g a = .ok b := by
  cases read with
  | error e => cases h
  | ok a => exact ⟨a, rfl, h⟩

theorem LocalRead.bind {size : α → Nat} {read : Bytes → Except ValueError α} (h : LocalRead size read)
    (g : α → Except ValueError β) (size' : β → Nat) (hsize : ∀ a b, g a = .ok b → size' b = size a) :
    LocalRead size' fun w => (read w).bind g := by
  intro w b hread
  obtain ⟨a, ha, hb⟩ := of_bind_eq_ok hread
  obtain ⟨hle, hlocal⟩ := h w a ha
  rw [hsize a b hb]
  refine ⟨hle, fun s => ?_⟩
  simp only [hlocal s]
  exact hb

theorem toOption_bind (read : Except ValueError α) (g : α → Except ValueError β) :
    (read.bind g).toOption = read.toOption.bind fun a => (g a).toOption := by
  cases read <;> rfl

/-- What is made of the answer of a stream read agrees with what is made of the one from a buffer. Errors may be
reported in other words. -/
theorem Agrees.bind {size : α → Nat} {left : Bytes} {expected? : Option α} {got : Except ValueError α × Source}
    (h : Agrees size left expected? got) (g : α → Except ValueError β) (size' : β → Nat)
    (hsize : ∀ a b, g a = .ok b → size' b = size a) {got' : Except ValueError β × Source}
    (hok : ∀ a s, got = (.ok a, s) → got' = (g a, s))
    (herror : ∀ e s, got = (.error e, s) → ∃ e', got'.1 = .error e') :
    Agrees size' left (expected?.bind fun a => (g a).toOption) got' := by
  obtain ⟨result, s⟩ := got
  cases expected? with
  | none =>
    obtain ⟨e, he⟩ := h
    cases he
    exact herror e s rfl
  | some a =>
    obtain ⟨hgot, hle, hleft, hsteady⟩ := h
    cases hgot
    rw [hok a s rfl, Option.bind_some]
    cases hb : g a with
    | error e => exact ⟨e, rfl⟩
    | ok b =>
      rw [← hsize a b hb] at hle hleft
      exact ⟨rfl, hle, hleft, hsteady⟩

/-- A header, null or with something behind it that `body` reads. The latter is told what the header says and is
given the header too. -/
def readCounted (body : Nat → Nat → Bytes → Except ValueError (Option α × Nat)) (w : Bytes) :
    Except ValueError (Option α × Nat) :=
  match CountHeader.read w with
  | .error e => .error e
  | .ok ⟨none, size⟩ => .ok (none, size)
  | .ok ⟨some count, size⟩ => body count size w

/-- The same from a source, where the header has been taken. -/
def readCountedFrom (body : Nat → Nat → Source → Except ValueError (Option α × Nat) × Source) (s : Source) :
    Except ValueError (Option α × Nat) × Source :=
  match CountHeader.readFrom s with
  | (.error e, s') => (.error e, s')
  | (.ok ⟨none, size⟩, s') => (.ok (none, size), s')
  | (.ok ⟨some count, size⟩, s') => body count size s'

theorem local_readCounted {body : Nat → Nat → Bytes → Except ValueError (Option α × Nat)}
    (hbody : ∀ count size, LocalRead Prod.snd (body count size))
    (hsize : ∀ count size w a, body count size w = .ok a → size ≤ a.2) :
    LocalRead Prod.snd (readCounted body) := by
  intro w a hread
  unfold readCounted at hread ⊢
  match hheader : CountHeader.read w with
  | .error e => simp [hheader] at hread
  | .ok ⟨none, size⟩ =>
    simp only [hheader] at hread
    cases hread
    obtain ⟨hle, hlocal⟩ := CountHeader.local_read w _ hheader
    exact ⟨hle, fun s => by simp only [hlocal s]⟩
  | .ok ⟨some count, size⟩ =>
    simp only [hheader] at hread
    obtain ⟨hle, hlocal⟩ := CountHeader.local_read w _ hheader
    obtain ⟨hlen, hrest⟩ := hbody count size w a hread
    refine ⟨hlen, fun s => ?_⟩
    have hfront : w.take a.2 = w.take size ++ (w.drop size).take (a.2 - size) := by
      rw [← List.take_add, Nat.add_sub_cancel' (hsize count size w a hread)]
    have hheader' : CountHeader.read (w.take a.2 ++ s) = .ok ⟨some count, size⟩ := by
      rw [hfront, List.append_assoc]
      exact hlocal _
    simp only [hheader']
    exact hrest s

theorem agrees_readCounted {s : Source} (hs : s.Steady)
    {body : Nat → Nat → Bytes → Except ValueError (Option α × Nat)}
    {bodyFrom : Nat → Nat → Source → Except ValueError (Option α × Nat) × Source}
    (hbody : ∀ count size s', s'.Steady → size ≤ s.left.length → s'.left = s.left.drop size →
      Agrees Prod.snd s.left (body count size s.left).toOption (bodyFrom count size s')) :
    Agrees Prod.snd s.left (readCounted body s.left).toOption (readCountedFrom bodyFrom s) := by
  have hheader := CountHeader.agrees_readFrom hs
  unfold readCounted readCountedFrom
  match CountHeader.read s.left, CountHeader.readFrom s, hheader with
  | .error e, (.error e', s'), _ => exact ⟨e', rfl⟩
  | .error e, (.ok header, s'), hheader =>
    obtain ⟨e', he⟩ := hheader
    cases he
  | .ok header, (.error e, s'), hheader => cases hheader.1
  | .ok header, (.ok header', s'), hheader =>
    obtain ⟨hsame, hle, hleft, hsteady⟩ := hheader
    cases hsame
    match header with
    | ⟨none, size⟩ => exact ⟨rfl, hle, hleft, hsteady⟩
    | ⟨some count, size⟩ => exact hbody count size s' hsteady hle hleft

/-! ### The laws -/

/-- A format that reads from a stream as from a buffer. No buffer has more bytes than `maxCapacity`. -/
def Format.Follows (f : Format α) : Prop :=
  ∀ s : Source, s.Steady → s.left.length ≤ maxCapacity →
    Agrees Prod.snd s.left (f.read s.left).toOption (f.readFrom s)

namespace Format

/-- The value that was read, unless it is null. -/
def notNull : Option α × Nat → Except ValueError (α × Nat)
  | (some v, consumed) => .ok (v, consumed)
  | (none, consumed) => .error (.unexpectedNull consumed)

theorem present_eq (read : Except ValueError (Option α × Nat)) : required.present read = read.bind notNull := by
  match read with
  | .error e => rfl
  | .ok (none, consumed) => rfl
  | .ok (some v, consumed) => rfl

theorem size_of_notNull (a : Option α × Nat) (b : α × Nat) (h : notNull a = .ok b) : b.2 = a.2 := by
  obtain ⟨v?, consumed⟩ := a
  cases v? with
  | none => cases h
  | some v =>
    cases h
    rfl

theorem read_required (f : Format (Option α)) : (required f).read = fun w => (f.read w).bind notNull :=
  funext fun w => present_eq (f.read w)

theorem readFrom_required (f : Format (Option α)) (s : Source) :
    (required f).readFrom s = ((f.readFrom s).1.bind notNull, (f.readFrom s).2) :=
  Prod.ext (present_eq (f.readFrom s).1) rfl

theorem local_required {f : Format (Option α)} (h : LocalRead Prod.snd f.read) :
    LocalRead Prod.snd (required f).read := by
  rw [read_required]
  exact h.bind notNull Prod.snd size_of_notNull

theorem Follows.required {f : Format (Option α)} (h : f.Follows) : (Format.required f).Follows := by
  intro s hs hlen
  rw [read_required, readFrom_required, toOption_bind]
  exact (h s hs hlen).bind notNull Prod.snd size_of_notNull (fun a s' h => by rw [h]; rfl)
    fun e s' h => ⟨e, by rw [h]; rfl⟩

/-! ### Bytes of a known number -/

def behind (needed size length : Nat) (w : Bytes) : Except ValueError Bytes :=
  if reaches (size + length) w then .ok ((w.drop size).take length) else .error (.bufferOverflow needed w.length)

theorem local_behind (needed size length : Nat) : LocalRead (fun _ => size + length) (behind needed size length) := by
  intro w bs hread
  unfold behind at hread
  split at hread
  case isTrue hreach =>
    cases hread
    rw [reaches_iff] at hreach
    have hlen : (w.take (size + length)).length = size + length := by rw [List.length_take, Nat.min_eq_left hreach]
    refine ⟨hreach, fun s => ?_⟩
    show behind needed size length (w.take (size + length) ++ s) = _
    have hreach' : reaches (size + length) (w.take (size + length) ++ s) = true := by
      rw [reaches_iff, List.length_append, hlen]
      omega
    have hlen' : ((w.drop size).take length).length = length := by
      rw [List.length_take, List.length_drop]
      omega
    rw [behind, if_pos hreach', List.drop_append_of_le_length (by omega), List.drop_take, Nat.add_sub_cancel_left,
      List.take_left' hlen']
  case isFalse => cases hread

theorem agrees_behind {left : Bytes} {size : Nat} {s : Source} (hs : s.Steady) (hle : size ≤ left.length)
    (hleft : s.left = left.drop size) (needed length : Nat) :
    Agrees (fun _ => size + length) left (behind needed size length left).toOption (s.takeExactly length) := by
  have htake := hs.agrees_takeExactly length
  rw [hleft] at htake
  have hall := htake.of_drop hle (fun _ => size + length) fun _ _ => rfl
  unfold behind
  simp only [reaches_iff]
  rw [List.length_drop] at hall
  split
  case isTrue h =>
    rw [if_pos (by omega)] at hall
    exact hall
  case isFalse h =>
    rw [if_neg (by omega)] at hall
    exact hall

/-! ### Single elements -/

def whole (e : ElementCodec α) (bs : Bytes) : Except ValueError (α × Nat) := (e.decode bs).map (·, e.size)

theorem size_of_whole (e : ElementCodec α) (bs : Bytes) (a : α × Nat) (h : whole e bs = .ok a) : a.2 = e.size := by
  unfold whole at h
  cases hdecode : e.decode bs with
  | error err => simp [hdecode, Except.map] at h
  | ok v =>
    simp only [hdecode, Except.map] at h
    cases h
    rfl

theorem read_scalar (e : ElementCodec α) : (scalar e).read = fun w => (behind e.size 0 e.size w).bind (whole e) := by
  funext w
  simp only [scalar, behind, Nat.zero_add, List.drop_zero]
  split <;> rfl

theorem local_scalar (e : ElementCodec α) : LocalRead Prod.snd (scalar e).read := by
  rw [read_scalar]
  apply (local_behind e.size 0 e.size).bind (whole e) Prod.snd
  intro bs a h
  rw [size_of_whole e bs a h, Nat.zero_add]

theorem follows_scalar (e : ElementCodec α) : (scalar e).Follows := by
  intro s hs _
  rw [read_scalar, toOption_bind]
  refine (agrees_behind hs (Nat.zero_le _) rfl e.size e.size).bind (whole e) Prod.snd (fun bs a h => ?_)
    (fun bs s' h => ?_) fun err s' h => ⟨err, ?_⟩
  · rw [size_of_whole e bs a h, Nat.zero_add]
  · simp only [scalar, h]
    rfl
  · simp only [scalar, h]

/-! ### Byte strings and text -/

/-- A byte string, as long as a header says. -/
def bytesBody (count size : Nat) (w : Bytes) : Except ValueError (Option Bytes × Nat) :=
  (behind (size + count) size count w).bind fun raw => .ok (some raw, size + count)

theorem readBytes_eq : readBytes = readCounted bytesBody := by
  funext w
  unfold readBytes readCounted
  match CountHeader.read w with
  | .error e => rfl
  | .ok ⟨none, size⟩ => rfl
  | .ok ⟨some count, size⟩ =>
    simp only [bytesBody, behind]
    split <;> rfl

def bytesBodyFrom (count size : Nat) (s : Source) : Except ValueError (Option Bytes × Nat) × Source :=
  match s.takeExactly count with
  | (.error e, s') => (.error (e.after size), s')
  | (.ok raw, s') => (.ok (some raw, size + count), s')

theorem readBytesFrom_eq : readBytesFrom = readCountedFrom bytesBodyFrom := by
  funext s
  unfold readBytesFrom readCountedFrom
  match CountHeader.readFrom s with
  | (.error e, s') => rfl
  | (.ok ⟨none, size⟩, s') => rfl
  | (.ok ⟨some count, size⟩, s') => rfl

theorem size_of_bytesBody {count size : Nat} {raw : Bytes} {a : Option Bytes × Nat}
    (h : (Except.ok (some raw, size + count) : Except ValueError _) = .ok a) : a.2 = size + count := by
  cases h
  rfl

theorem local_optionalBytes : LocalRead Prod.snd optionalBytes.read := by
  show LocalRead Prod.snd readBytes
  rw [readBytes_eq]
  refine local_readCounted (fun count size => ?_) fun count size w a h => ?_
  · exact (local_behind _ size count).bind _ Prod.snd fun raw a h => size_of_bytesBody h
  · obtain ⟨raw, -, ha⟩ := of_bind_eq_ok h
    rw [size_of_bytesBody ha]
    exact Nat.le_add_right _ _

theorem follows_optionalBytes : optionalBytes.Follows := by
  intro s hs _
  show Agrees Prod.snd s.left (readBytes s.left).toOption (readBytesFrom s)
  rw [readBytes_eq, readBytesFrom_eq]
  apply agrees_readCounted hs
  intro count size s' hs' hle hleft
  rw [bytesBody, toOption_bind]
  refine (agrees_behind hs' hle hleft _ count).bind _ Prod.snd (fun raw a h => size_of_bytesBody h)
    (fun raw s'' h => ?_) fun e s'' h => ⟨e.after size, ?_⟩
  · rw [bytesBodyFrom, h]
  · rw [bytesBodyFrom, h]

/-- The text in a byte string, unless it is null. -/
def textOf : Option Bytes × Nat → Except ValueError (Option String × Nat)
  | (none, consumed) => .ok (none, consumed)
  | (some raw, consumed) =>
    match Utf8.decode? raw with
    | some s => .ok (some s, consumed)
    | none => .error (.invalidValue "String" (((Utf8.fault? raw).map (·.message)).getD ""))

theorem asText_eq (read : Except ValueError (Option Bytes × Nat)) : asText read = read.bind textOf := by
  match read with
  | .error e => rfl
  | .ok (none, consumed) => rfl
  | .ok (some raw, consumed) => rfl

theorem size_of_textOf (a : Option Bytes × Nat) (b : Option String × Nat) (h : textOf a = .ok b) : b.2 = a.2 := by
  obtain ⟨raw?, consumed⟩ := a
  cases raw? with
  | none =>
    cases h
    rfl
  | some raw =>
    unfold textOf at h
    simp only at h
    split at h
    · cases h
      rfl
    · cases h

theorem local_optionalText : LocalRead Prod.snd optionalText.read := by
  show LocalRead Prod.snd fun w => asText (optionalBytes.read w)
  simp only [asText_eq]
  exact local_optionalBytes.bind textOf Prod.snd size_of_textOf

theorem follows_optionalText : optionalText.Follows := by
  intro s hs hlen
  show Agrees Prod.snd s.left (asText (optionalBytes.read s.left)).toOption
    (asText (optionalBytes.readFrom s).1, (optionalBytes.readFrom s).2)
  rw [asText_eq, asText_eq, toOption_bind]
  exact (follows_optionalBytes s hs hlen).bind textOf Prod.snd size_of_textOf (fun a s' h => by rw [h]; rfl)
    fun e s' h => ⟨e, by rw [h]; rfl⟩

/-! ### Collections -/

/-- The elements that fill some bytes, behind a header. -/
def elementsOf (c : Collection α) (stop : Nat) (bs : Bytes) : Except ValueError (Option (List α) × Nat) :=
  (c.codec.decodeAll bs).map fun vs => (some vs, stop)

def elementsBody (c : Collection α) (count size : Nat) (w : Bytes) : Except ValueError (Option (List α) × Nat) :=
  (c.bodyLength count).bind fun length =>
    (behind (saturate (size + length)) size length w).bind (elementsOf c (size + length))

theorem elementsBody_of_le {c : Collection α} {count : Nat} (h : count * c.elementSize ≤ maxWord) (size : Nat)
    (w : Bytes) :
    elementsBody c count size w =
      (behind (saturate (size + count * c.elementSize)) size (count * c.elementSize) w).bind
        (elementsOf c (size + count * c.elementSize)) := by
  rw [elementsBody, c.bodyLength_of_le h]
  rfl

theorem elementsBody_of_lt {c : Collection α} {count : Nat} (h : maxWord < count * c.elementSize) (size : Nat)
    (w : Bytes) : elementsBody c count size w = .error (.invalidLength count) := by
  rw [elementsBody, c.bodyLength_of_lt h]
  rfl

theorem body_eq (c : Collection α) (count size : Nat) (w : Bytes) :
    c.body ⟨some count, size⟩ w =
      (c.bodyLength count).bind fun length =>
        (behind (saturate (size + length)) size length w).map (·, size + length) := by
  have hcount : CountHeader.count ⟨some count, size⟩ = count := rfl
  rw [Collection.body, hcount]
  cases c.bodyLength count with
  | error e => rfl
  | ok length =>
    simp only [Except.bind, behind]
    split <;> rfl

theorem read_collection_eq (c : Collection α) : c.read = readCounted (elementsBody c) := by
  funext w
  unfold Collection.read readCounted
  match CountHeader.read w with
  | .error e => rfl
  | .ok ⟨none, size⟩ => rfl
  | .ok ⟨some count, size⟩ =>
    show ((c.body ⟨some count, size⟩ w).bind fun found => (c.codec.decodeAll found.1).bind fun vs =>
      .ok (some vs, found.2)) = elementsBody c count size w
    rw [body_eq, elementsBody]
    cases c.bodyLength count with
    | error e => rfl
    | ok length =>
      simp only [Except.bind]
      cases behind (saturate (size + length)) size length w with
      | error e => rfl
      | ok bs => rfl

theorem size_of_elementsOf (c : Collection α) (stop : Nat) (bs : Bytes) (a : Option (List α) × Nat)
    (h : elementsOf c stop bs = .ok a) : a.2 = stop := by
  unfold elementsOf at h
  cases hdecode : c.codec.decodeAll bs with
  | error e => simp [hdecode, Except.map] at h
  | ok vs =>
    simp only [hdecode, Except.map] at h
    cases h
    rfl

theorem local_read_collection (c : Collection α) : LocalRead Prod.snd c.read := by
  rw [read_collection_eq]
  refine local_readCounted (fun count size => ?_) fun count size w a h => ?_
  · unfold elementsBody
    cases c.bodyLength count with
    | error e => exact fun _ _ hread => nomatch hread
    | ok length => exact (local_behind _ size length).bind (elementsOf c _) Prod.snd (size_of_elementsOf c _)
  · obtain ⟨length, -, hbody⟩ := of_bind_eq_ok h
    obtain ⟨bs, -, ha⟩ := of_bind_eq_ok hbody
    rw [size_of_elementsOf c _ bs a ha]
    exact Nat.le_add_right _ _

def elementsBodyFrom (c : Collection α) (staging : StagingLimits) (count size : Nat) (s : Source) :
    Except ValueError (Option (List α) × Nat) × Source :=
  match c.readElementsFrom count ⟨s, staging⟩ with
  | (.error e, i) => (.error (e.after size), i.source)
  | (.ok (vs, body), i) => (.ok (some vs, size + body), i.source)

theorem elementsBodyFrom_of_ok {c : Collection α} {staging : StagingLimits} {count size : Nat} {s : Source}
    {read : List α × Nat} (h : (c.readElementsFrom count ⟨s, staging⟩).1 = .ok read) :
    elementsBodyFrom c staging count size s =
      (.ok (some read.1, size + read.2), (c.readElementsFrom count ⟨s, staging⟩).2.source) := by
  unfold elementsBodyFrom
  generalize c.readElementsFrom count ⟨s, staging⟩ = run at h ⊢
  obtain ⟨result, i⟩ := run
  cases h
  rfl

theorem elementsBodyFrom_of_error {c : Collection α} {staging : StagingLimits} {count size : Nat} {s : Source}
    {e : ValueError} (h : (c.readElementsFrom count ⟨s, staging⟩).1 = .error e) :
    (elementsBodyFrom c staging count size s).1 = .error (e.after size) := by
  unfold elementsBodyFrom
  generalize c.readElementsFrom count ⟨s, staging⟩ = run at h ⊢
  obtain ⟨result, i⟩ := run
  cases h
  rfl

theorem readFrom_collection_eq (c : Collection α) (i : Inlet) :
    ((c.readFrom i).1, (c.readFrom i).2.source) = readCountedFrom (elementsBodyFrom c i.staging) i.source := by
  unfold Collection.readFrom readCountedFrom Collection.readCountFrom
  obtain ⟨_ | ⟨_ | count, size⟩, s'⟩ := CountHeader.readFrom i.source
  · rfl
  · rfl
  · simp only [elementsBodyFrom]
    obtain ⟨_ | ⟨vs, body⟩, i'⟩ := c.readElementsFrom count ⟨s', i.staging⟩ <;> rfl

/-- What is made of the elements behind a header. -/
def counted (size : Nat) (read : List α × Nat) : Except ValueError (Option (List α) × Nat) :=
  .ok (some read.1, size + read.2)

theorem toOption_elementsBody {c : Collection α} {count : Nat} (h : count * c.elementSize ≤ maxWord) {size : Nat}
    {w : Bytes} (hle : size ≤ w.length) :
    (elementsBody c count size w).toOption =
      ((c.elementsIn? (count * c.elementSize) (w.drop size)).map (·, count * c.elementSize)).bind fun read =>
        (counted size read).toOption := by
  rw [elementsBody_of_le h]
  unfold behind Collection.elementsIn?
  simp only [reaches_iff, List.length_drop]
  by_cases hall : size + count * c.elementSize ≤ w.length
  · rw [if_pos hall, if_pos (by omega)]
    simp only [Except.bind, elementsOf]
    cases c.codec.decodeAll ((w.drop size).take (count * c.elementSize)) <;> rfl
  · rw [if_neg hall, if_neg (by omega)]
    rfl

/-- Elements whose length is no word are in no buffer that there can be. -/
theorem toOption_elementsBody_of_length {c : Collection α} (count : Nat) {size : Nat} {w : Bytes}
    (hle : size ≤ w.length) (hlen : w.length ≤ maxCapacity) :
    (elementsBody c count size w).toOption =
      ((c.elementsIn? (count * c.elementSize) (w.drop size)).map (·, count * c.elementSize)).bind fun read =>
        (counted size read).toOption := by
  by_cases hword : count * c.elementSize ≤ maxWord
  · exact toOption_elementsBody hword hle
  · have hlong : ¬ count * c.elementSize ≤ (w.drop size).length := by
      intro hle'
      rw [List.length_drop] at hle'
      exact hword (StagingLimits.le_maxWord (by omega))
    rw [elementsBody_of_lt (Nat.lt_of_not_le hword), Collection.elementsIn?, if_neg hlong]
    rfl

theorem agrees_readFrom_collection (c : Collection α) {i : Inlet} (hs : i.source.Steady)
    (hstaging : i.staging.Allocatable) (hlen : i.source.left.length ≤ maxCapacity) :
    Agrees Prod.snd i.source.left (c.read i.source.left).toOption
      ((c.readFrom i).1, (c.readFrom i).2.source) := by
  rw [read_collection_eq, readFrom_collection_eq]
  apply agrees_readCounted hs
  intro count size s hs' hle hleft
  have hleft_len : s.left.length ≤ maxCapacity := by
    rw [hleft, List.length_drop]
    omega
  have helements := c.agrees_readElementsFrom count (i := ⟨s, i.staging⟩) hs' hstaging
    (Nat.le_trans · hleft_len)
  simp only [hleft] at helements
  rw [toOption_elementsBody_of_length count hle hlen]
  refine (helements.of_drop hle (fun read => size + read.2) fun _ _ => rfl).bind (counted size) Prod.snd
    (fun read a h => ?_) (fun read s' h => ?_) fun e s' h => ?_
  · cases h
    rfl
  · obtain ⟨hresult, rfl⟩ := Prod.mk.inj h
    exact elementsBodyFrom_of_ok hresult
  · obtain ⟨hresult, -⟩ := Prod.mk.inj h
    exact ⟨_, elementsBodyFrom_of_error hresult⟩

theorem map_eq_bind (read : Except ValueError α) (g : α → β) : read.map g = read.bind fun a => .ok (g a) := by
  cases read <;> rfl

theorem local_optionalCollection (h : Holder α β) (c : Collection α) (limits : StagingLimits) :
    LocalRead Prod.snd (optionalCollection h c limits).read := by
  simp only [optionalCollection, map_eq_bind]
  apply (local_read_collection c).bind _ Prod.snd
  intro a b hb
  cases hb
  rfl

theorem follows_optionalCollection (h : Holder α β) (c : Collection α) {limits : StagingLimits}
    (hlimits : limits.Allocatable) : (optionalCollection h c limits).Follows := by
  intro s hs hlen
  simp only [optionalCollection, map_eq_bind, toOption_bind]
  refine (agrees_readFrom_collection c (i := ⟨s, limits⟩) hs hlimits hlen).bind _ Prod.snd (fun a b hb => ?_)
    (fun a s' hread => ?_) fun e s' hread => ⟨e, ?_⟩
  · cases hb
    rfl
  · obtain ⟨hresult, rfl⟩ := Prod.mk.inj hread
    rw [hresult]
    rfl
  · obtain ⟨hresult, rfl⟩ := Prod.mk.inj hread
    rw [hresult]
    rfl

end Format

end MessageWire
