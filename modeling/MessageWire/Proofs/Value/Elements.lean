import MessageWire.Value.Element
/-!
# Lists of elements, one by one

Both ways of encoding a list of elements are the element-wise one: a list is the elements' bytes one after the
other (`Codec.encodeAll_eq`), and it is decoded block by block (`Codec.decodeAll_eq`). So what is encoded decodes
to itself, and a decoding may be cut between any two elements (`Codec.decodeAll_append`), which is what staging
does.
-/

namespace MessageWire

variable {α : Type}

/-! ### Whole blocks -/

theorem block_induction {size : Nat} (hpos : 0 < size) {motive : List α → Prop}
    (short : ∀ xs : List α, xs.length < size → motive xs)
    (block : ∀ block rest : List α, block.length = size → motive rest → motive (block ++ rest)) (xs : List α) :
    motive xs := by
  induction hlen : xs.length using Nat.strongRecOn generalizing xs with
  | _ n ih =>
    by_cases hshort : xs.length < size
    · exact short xs hshort
    · have hrest := ih (xs.drop size).length (by rw [List.length_drop]; omega) (xs.drop size) rfl
      have hblock := block (xs.take size) (xs.drop size) (by rw [List.length_take]; omega) hrest
      rwa [List.take_append_drop] at hblock

theorem blocks_append_of_dvd {size : Nat} (hpos : 0 < size) {front : List α} (hwhole : size ∣ front.length)
    (rest : List α) : blocks size (front ++ rest) = blocks size front ++ blocks size rest := by
  induction front using block_induction hpos with
  | short front hshort =>
    obtain rfl := List.length_eq_zero_iff.mp (Nat.eq_zero_of_dvd_of_lt hwhole hshort)
    rw [blocks_of_lt hshort]
    rfl
  | block block more hlen ih =>
    rw [List.length_append, hlen] at hwhole
    have hmore := (Nat.dvd_add_right (Nat.dvd_refl size)).mp hwhole
    rw [List.append_assoc, blocks_append _ hpos hlen, ih hmore, blocks_append _ hpos hlen, List.cons_append]

theorem turn_append (order : ByteOrder) {size : Nat} {block : Bytes} (rest : Bytes) (hlen : block.length = size) :
    order.turn size (block ++ rest) = order.turn size block ++ order.turn size rest := by
  cases order with
  | little => rfl
  | big =>
    simp only [ByteOrder.turn, ByteOrder.swaps, if_true]
    by_cases hsize : size < 2
    · simp [reverseBlocks, hsize]
    · rw [reverseBlocks_append rest hlen (by omega), reverseBlocks_of_length hlen]

theorem blocks_turn (order : ByteOrder) {size : Nat} (hpos : 0 < size) (bs : Bytes) :
    blocks size (order.turn size bs) = (blocks size bs).map (order.turn size) := by
  induction bs using block_induction hpos with
  | short bs hshort =>
    rw [blocks_of_lt hshort, blocks_of_lt (by rwa [length_turn])]
    rfl
  | block block rest hlen ih =>
    rw [turn_append order rest hlen, blocks_append _ hpos (by rw [length_turn, hlen]), ih,
      blocks_append _ hpos hlen, List.map_cons]

/-! ### Element by element -/

theorem ElementCodec.length_encodeList (e : ElementCodec α) (vs : List α) :
    (e.encodeList vs).length = vs.length * e.size := by
  induction vs with
  | nil => simp [encodeList]
  | cons v vs ih =>
    rw [encodeList, List.flatMap_cons, List.length_append, e.length_encode, ← encodeList, ih, List.length_cons,
      Nat.succ_mul, Nat.add_comm]

theorem ElementCodec.decodeEach_eq (e : ElementCodec α) (bss : List Bytes) (done : List α) :
    (match e.decodeEach bss done with
      | (vs, none) => Except.ok vs
      | (_, some err) => .error err) = (bss.mapM e.decode).map (done.reverse ++ ·) := by
  induction bss generalizing done with
  | nil => simp [decodeEach, Except.map, pure, Except.pure]
  | cons block rest ih =>
    rw [decodeEach, List.mapM_cons]
    cases hdecode : e.decode block with
    | error err => rfl
    | ok a =>
      simp only [ih]
      cases hrest : rest.mapM e.decode with
      | error err => rfl
      | ok vs => simp [Except.map, bind, Except.bind, pure, Except.pure]

theorem ElementCodec.exists_of_decodeEach {e : ElementCodec α} {err : ValueError} {bss : List Bytes} {done : List α}
    (herr : (e.decodeEach bss done).2 = some err) : ∃ bs, e.decode bs = .error err := by
  induction bss generalizing done with
  | nil => cases herr
  | cons bs bss ih =>
    rw [decodeEach] at herr
    cases hdecode : e.decode bs with
    | ok a =>
      simp only [hdecode] at herr
      exact ih herr
    | error err' =>
      simp only [hdecode] at herr
      cases herr
      exact ⟨bs, hdecode⟩

namespace Codec

theorem bytesOf_of_le {c : Codec α} {count : Nat} (h : count * c.size ≤ maxWord) :
    c.bytesOf count = .ok (count * c.size) := if_pos h

theorem bytesOf_of_lt {c : Codec α} {count : Nat} (h : maxWord < count * c.size) :
    c.bytesOf count = .error (.invalidLength count) := if_neg (Nat.not_le_of_lt h)

/-- A list is encoded as its elements are, one after the other. -/
theorem encodeAll_eq (c : Codec α) (vs : List α) : c.encodeAll vs = c.element.encodeList vs := by
  cases c with
  | loop e => rfl
  | block p order =>
    change order.turn p.size (p.images vs) = vs.flatMap fun v => order.turn p.size (p.image v)
    induction vs with
    | nil => exact List.eq_nil_of_length_eq_zero (length_turn order p.size [])
    | cons v vs ih =>
      rw [Plain.images, List.flatMap_cons, turn_append order _ (p.length_image v), ← Plain.images, ih,
        List.flatMap_cons]

theorem decodeAll_eq (c : Codec α) (hpos : 0 < c.size) (bs : Bytes) :
    c.decodeAll bs = (blocks c.size bs).mapM c.element.decode := by
  cases c with
  | loop e =>
    have heach := e.decodeEach_eq (blocks e.size bs) []
    rw [decodeAll]
    refine heach.trans ?_
    simp only [List.reverse_nil, List.nil_append]
    cases hdecode : (blocks e.size bs).mapM e.decode with
    | error err => exact hdecode.symm
    | ok vs => exact hdecode.symm
  | block p order =>
    have hpos' : 0 < p.size := hpos
    have hblocks : p.ofImages (order.turn p.size bs) =
        (blocks p.size bs).map fun block => p.ofImage (order.turn p.size block) := by
      rw [Plain.ofImages, blocks_turn order hpos', List.map_map]
      rfl
    rw [decodeAll, hblocks]
    exact (List.mapM_pure (m := Except ValueError)).symm

theorem length_encodeAll (c : Codec α) (vs : List α) : (c.encodeAll vs).length = vs.length * c.size := by
  rw [encodeAll_eq, ElementCodec.length_encodeList, size]

theorem decodeAll_encodeAll (c : Codec α) (hpos : 0 < c.size) (vs : List α) :
    c.decodeAll (c.encodeAll vs) = .ok vs := by
  have hblocks : blocks c.size (vs.flatMap c.element.encode) = vs.map c.element.encode :=
    blocks_flatMap hpos c.element.encode c.element.length_encode vs
  have hdecode : c.element.decode ∘ c.element.encode = fun a => pure a := funext c.element.decode_encode
  rw [decodeAll_eq c hpos, encodeAll_eq, ElementCodec.encodeList, hblocks, List.mapM_map, hdecode, List.mapM_pure,
    List.map_id']
  rfl

theorem decodeAll_append (c : Codec α) (hpos : 0 < c.size) {front : Bytes} (hwhole : c.size ∣ front.length)
    (rest : Bytes) :
    c.decodeAll (front ++ rest) =
      match c.decodeAll front with
      | .error e => .error e
      | .ok vs => (c.decodeAll rest).map (vs ++ ·) := by
  rw [decodeAll_eq c hpos, decodeAll_eq c hpos, decodeAll_eq c hpos, blocks_append_of_dvd hpos hwhole,
    List.mapM_append]
  cases (blocks c.size front).mapM c.element.decode with
  | error e => rfl
  | ok vs =>
    cases (blocks c.size rest).mapM c.element.decode with
    | error e => rfl
    | ok ws => rfl

theorem length_of_mapM {β ε : Type} {f : β → Except ε α} {bs : List β} {vs : List α} (h : bs.mapM f = .ok vs) :
    vs.length = bs.length := by
  induction bs generalizing vs with
  | nil =>
    cases h
    rfl
  | cons b bs ih =>
    rw [List.mapM_cons] at h
    cases hv : f b with
    | error e =>
      rw [hv] at h
      cases h
    | ok v =>
      cases hrest : bs.mapM f with
      | error e =>
        rw [hv, hrest] at h
        cases h
      | ok ws =>
        rw [hv, hrest] at h
        cases h
        rw [List.length_cons, List.length_cons, ih hrest]

theorem length_of_decodeAll (c : Codec α) (hpos : 0 < c.size) {bs : Bytes} {vs : List α}
    (h : c.decodeAll bs = .ok vs) :
    vs.length = bs.length / c.size := by
  rw [decodeAll_eq c hpos] at h
  rw [length_of_mapM h, blocks, length_firstBlocks]

theorem exists_of_decodeAll {c : Codec α} {bs : Bytes} {err : ValueError} (herr : c.decodeAll bs = .error err) :
    ∃ block, c.element.decode block = .error err := by
  cases c with
  | block p order => cases herr
  | loop e =>
    rw [decodeAll] at herr
    generalize hrun : e.decodeEach (blocks e.size bs) [] = run at herr
    obtain ⟨vs, _ | err'⟩ := run
    · cases herr
    · cases herr
      exact ElementCodec.exists_of_decodeEach (congrArg Prod.snd hrun)

/-- A destination is decoded onto if its bytes are a list of elements. -/
theorem decodeOnto_fst (c : Codec α) (bs : Bytes) (dst : List α) :
    (c.decodeOnto bs dst).1 = (c.decodeAll bs).map fun _ => () := by
  cases c with
  | block p order => rfl
  | loop e =>
    simp only [decodeOnto, decodeAll]
    obtain ⟨vs, _ | err⟩ := e.decodeEach (blocks e.size bs) []
    · rfl
    · rfl

theorem decodeOnto_of_ok {c : Codec α} {bs : Bytes} {vs : List α} (h : c.decodeAll bs = .ok vs) (dst : List α) :
    c.decodeOnto bs dst = (.ok (), vs ++ dst.drop vs.length) := by
  cases c with
  | block p order =>
    cases h
    rfl
  | loop e =>
    simp only [decodeOnto, decodeAll] at h ⊢
    generalize e.decodeEach (blocks e.size bs) [] = run at h ⊢
    obtain ⟨vs', _ | err⟩ := run
    · cases h
      rfl
    · cases h

end Codec

end MessageWire
