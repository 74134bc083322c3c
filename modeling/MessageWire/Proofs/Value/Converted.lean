import MessageWire.Proofs.Value.Conversion
/-!
# Reading values that go through a wire type

A list of values is read as the list of its wire values, which are converted back one by one. From a buffer these are
one after the other (`Conversion.read_list`). From a stream they alternate span by span, so a transfer of values may
stop where that of the wire values goes on; but it comes to its end exactly if that one does and all of its elements are
converted back (`Conversion.runSpans_list_iff`).

The types that are converted are truth values, characters and machine-sized integers (`Converted`), and their format is
that of the numbers they go through (`Converted.same_wire_format`).
-/

namespace MessageWire

variable {α β γ : Type}

/-! ### Reads that succeed -/

theorem Inlet.stage_eq_ok_iff {τ : Type} {consume : Span → Bytes → τ → Except ValueError Unit × τ}
    {total unit n : Nat} (hzero : total ≠ 0) {i i' : Inlet} {t t' : τ} :
    i.stage total unit consume t = (.ok n, i', t') ↔
      n = total ∧ i'.staging = i.staging ∧ i.staging.Allocates total unit
        ∧ runSpans (i.staging.chunkLength total unit) (i.staging.chunkLength_pos unit hzero) total
          (Source.takeSpan consume) 0 (i.source, t) = (.ok (), i'.source, t') := by
  unfold stage
  by_cases hroom : i.staging.Allocates total unit
  case neg =>
    rw [StagingLimits.run_of_not_allocates hroom]
    simp [hroom]
  case pos =>
    rw [StagingLimits.run_of_allocates hzero hroom]
    obtain ⟨s', staging'⟩ := i'
    obtain ⟨_ | _, s, t''⟩ := runSpans _ _ _ (Source.takeSpan consume) _ _
    · simp [Except.map]
    · simp only [Except.map, Prod.mk.injEq, Except.ok.injEq, Inlet.mk.injEq]
      constructor
      · rintro ⟨rfl, ⟨rfl, rfl⟩, rfl⟩
        exact ⟨rfl, rfl, hroom, trivial, rfl, rfl⟩
      · rintro ⟨rfl, rfl, -, -, rfl, rfl⟩
        exact ⟨rfl, ⟨rfl, rfl⟩, rfl⟩

theorem Collection.readElementsFrom_eq_ok_iff {c : Collection γ} {count body : Nat} {i i' : Inlet} {vs : List γ} :
    c.readElementsFrom count i = (.ok (vs, body), i') ↔
      ∃ total, c.bodyLength count = .ok total
        ∧ i.stage total c.elementSize c.decodeSpan [] = (.ok body, i', vs.reverse) := by
  unfold readElementsFrom
  cases c.bodyLength count with
  | error e => simp
  | ok total =>
    simp only [Except.ok.injEq, exists_eq_left']
    obtain ⟨_ | body', i'', done⟩ := i.stage _ _ c.decodeSpan []
    · simp
    · simp only [Prod.mk.injEq, Except.ok.injEq, List.reverse_eq_iff]
      constructor
      · rintro ⟨⟨rfl, rfl⟩, rfl⟩
        exact ⟨rfl, rfl, rfl⟩
      · rintro ⟨rfl, rfl, rfl⟩
        exact ⟨⟨rfl, rfl⟩, rfl⟩

theorem Collection.readFrom_eq_ok_iff {c : Collection γ} {count size n : Nat} {i i₁ i' : Inlet}
    {vs? : Option (List γ)} (hfirst : readCountFrom i = (.ok ⟨some count, size⟩, i₁)) :
    c.readFrom i = (.ok (vs?, n), i') ↔
      ∃ vs body, vs? = some vs ∧ n = size + body ∧ c.readElementsFrom count i₁ = (.ok (vs, body), i') := by
  simp only [readFrom, hfirst]
  obtain ⟨_ | ⟨vs, body⟩, i''⟩ := c.readElementsFrom count i₁
  · simp
  · refine ⟨fun h => ?_, ?_⟩
    · cases h
      exact ⟨vs, body, rfl, rfl, rfl⟩
    · rintro ⟨vs, body, rfl, rfl, h⟩
      cases h
      rfl

namespace Conversion

variable {k : Conversion α β} {order : ByteOrder}

/-! ### Reads -/

def convert (k : Conversion α β) : Option (List β) × Nat → Except ValueError (Option (List α) × Nat)
  | (none, consumed) => .ok (none, consumed)
  | (some ws, consumed) => (ws.mapM k.ofWire).map fun as => (some as, consumed)

theorem read_list (src : Bytes) : (k.list order).read src = ((k.wireList order).read src).bind k.convert := by
  rw [Format.read_collection_eq, Format.read_collection_eq]
  unfold readCounted
  match CountHeader.read src with
  | .error e => rfl
  | .ok ⟨none, size⟩ => rfl
  | .ok ⟨some count, size⟩ =>
    simp only [Format.elementsBody, bodyLength_list]
    cases (k.list order).bodyLength count with
    | error e => rfl
    | ok length =>
      simp only [Except.bind]
      cases Format.behind _ size length src with
      | error e => rfl
      | ok bs =>
        show Format.elementsOf (k.list order) _ bs = _
        rw [Format.elementsOf, decodeAll_list]
        rfl

/-- Wire values that are converted back, all of them. -/
def Means (k : Conversion α β) (ws : List β) (as : List α) : Prop := ws.mapM k.ofWire = .ok as

theorem means_cons_iff {w : β} {ws : List β} {bs : List α} :
    k.Means (w :: ws) bs ↔ ∃ a as, k.ofWire w = .ok a ∧ k.Means ws as ∧ bs = a :: as := by
  unfold Means
  rw [List.mapM_cons]
  cases k.ofWire w with
  | error e => simp [bind, Except.bind]
  | ok a =>
    cases ws.mapM k.ofWire with
    | error e => simp [bind, Except.bind]
    | ok as => simp [bind, Except.bind, pure, Except.pure, eq_comm]

theorem means_append_iff {ws ws' : List β} {bs : List α} :
    k.Means (ws ++ ws') bs ↔ ∃ as as', k.Means ws as ∧ k.Means ws' as' ∧ bs = as ++ as' := by
  unfold Means
  rw [List.mapM_append]
  cases ws.mapM k.ofWire with
  | error e => simp [bind, Except.bind]
  | ok as =>
    cases ws'.mapM k.ofWire with
    | error e => simp [bind, Except.bind]
    | ok as' => simp [bind, Except.bind, pure, Except.pure, eq_comm]

theorem suffix_runSpans (c : Collection γ) {chunk : Nat} (hchunk : 0 < chunk) (total start : Nat)
    (st : Source × List γ) : st.2 <:+ (runSpans chunk hchunk total (Source.takeSpan c.decodeSpan) start st).2.2 := by
  have hspan : ∀ span (st : Source × List γ), st.2 <:+ (Source.takeSpan c.decodeSpan span st).2.2 := by
    rintro span ⟨s, done⟩
    unfold Source.takeSpan Collection.decodeSpan
    obtain ⟨_ | data, s'⟩ := s.takeExactly span.length
    · exact List.suffix_refl _
    · simp only
      cases c.codec.decodeAll data with
      | error e => exact List.suffix_refl _
      | ok vs => exact List.suffix_append _ _
  fun_induction runSpans chunk hchunk total (Source.takeSpan c.decodeSpan) start st with
  | case1 start st hmore stop st' hact ih =>
    have hfirst := hspan ⟨start, start + min chunk (total - start)⟩ st
    rw [show Source.takeSpan c.decodeSpan ⟨start, start + min chunk (total - start)⟩ st = _ from hact] at hfirst
    exact hfirst.trans ih
  | case2 start st hmore stop e st' hact =>
    have hfirst := hspan ⟨start, start + min chunk (total - start)⟩ st
    rwa [show Source.takeSpan c.decodeSpan ⟨start, start + min chunk (total - start)⟩ st = _ from hact] at hfirst
  | case3 start st hend => exact List.suffix_refl _

/-- A transfer of values comes to its end if that of the wire values does, and all of these are converted back. -/
theorem runSpans_list_iff {chunk : Nat} (hchunk : 0 < chunk) {total start : Nat} {s s' : Source} {ws : List β}
    {as as' : List α} (h : k.Means ws.reverse as.reverse) :
    runSpans chunk hchunk total (Source.takeSpan (k.list order).decodeSpan) start (s, as) = (.ok (), s', as') ↔
      ∃ ws', runSpans chunk hchunk total (Source.takeSpan (k.wireList order).decodeSpan) start (s, ws)
        = (.ok (), s', ws') ∧ k.Means ws'.reverse as'.reverse := by
  induction hwant : total - start using Nat.strongRecOn generalizing start s ws as with
  | _ want ih =>
    subst hwant
    rw [runSpans, runSpans]
    by_cases hmore : start < total
    · rw [if_pos hmore, if_pos hmore]
      obtain ⟨stop, hstop⟩ : ∃ stop, start + min chunk (total - start) = stop := ⟨_, rfl⟩
      simp only [hstop, Source.takeSpan]
      obtain ⟨e | data, t⟩ := s.takeExactly (Span.length ⟨start, stop⟩)
      · simp
      · have hdecode := k.decodeAll_list order data
        have hwire : (k.wireList order).codec.decodeAll data
            = .ok (k.plain.ofImages (order.turn k.plain.size data)) := rfl
        generalize k.plain.ofImages (order.turn k.plain.size data) = new at hdecode hwire
        simp only [Collection.decodeSpan, hdecode, hwire]
        cases hnew : new.mapM k.ofWire with
        | ok vs =>
          have hall : k.Means (new.reverse ++ ws).reverse (vs.reverse ++ as).reverse := by
            rw [List.reverse_append, List.reverse_append, List.reverse_reverse, List.reverse_reverse]
            exact means_append_iff.mpr ⟨_, _, h, hnew, rfl⟩
          exact ih (total - stop) (by omega) hall rfl
        | error e =>
          -- The wire values go on, but those that were not converted back stay among them.
          have hkept := suffix_runSpans (k.wireList order) hchunk total stop (t, new.reverse ++ ws)
          refine ⟨fun hrun => ?_, ?_⟩
          · cases hrun
          · rintro ⟨ws', hrun, hmeans⟩
            rw [hrun] at hkept
            obtain ⟨more, rfl⟩ := hkept
            rw [List.reverse_append, List.reverse_append, List.reverse_reverse] at hmeans
            obtain ⟨_, _, hfront, -, -⟩ := means_append_iff.mp hmeans
            obtain ⟨_, _, -, hbad, -⟩ := means_append_iff.mp hfront
            cases hnew.symm.trans hbad
    · rw [if_neg hmore, if_neg hmore]
      refine ⟨fun hrun => ?_, ?_⟩
      · cases hrun
        exact ⟨ws, rfl, h⟩
      · rintro ⟨ws', hrun, hmeans⟩
        cases hrun
        rw [List.reverse_inj.mp (Except.ok.inj (h.symm.trans hmeans))]

theorem stage_list_iff {total body : Nat} (unit : Nat) {i i' : Inlet} {as : List α} :
    i.stage total unit (k.list order).decodeSpan [] = (.ok body, i', as) ↔
      ∃ ws, i.stage total unit (k.wireList order).decodeSpan [] = (.ok body, i', ws)
        ∧ k.Means ws.reverse as.reverse := by
  have hnone : k.Means [].reverse [].reverse := rfl
  by_cases hzero : total = 0
  · subst hzero
    refine ⟨fun hrun => ?_, ?_⟩
    · cases hrun
      exact ⟨[], rfl, hnone⟩
    · rintro ⟨ws, hrun, hmeans⟩
      cases hrun
      rw [List.reverse_inj.mp (Except.ok.inj (hnone.symm.trans hmeans))]
      rfl
  · have hchunk := i.staging.chunkLength_pos unit hzero
    simp only [Inlet.stage_eq_ok_iff hzero, runSpans_list_iff hchunk hnone]
    constructor
    · rintro ⟨hbody, hstaging, hroom, ws, hrun, hmeans⟩
      exact ⟨ws, ⟨hbody, hstaging, hroom, hrun⟩, hmeans⟩
    · rintro ⟨ws, ⟨hbody, hstaging, hroom, hrun⟩, hmeans⟩
      exact ⟨hbody, hstaging, hroom, ws, hrun, hmeans⟩

theorem readElementsFrom_list_iff {count body : Nat} {i i' : Inlet} {as : List α} :
    (k.list order).readElementsFrom count i = (.ok (as, body), i') ↔
      ∃ ws, (k.wireList order).readElementsFrom count i = (.ok (ws, body), i') ∧ k.Means ws as := by
  simp only [Collection.readElementsFrom_eq_ok_iff, stage_list_iff, List.reverse_reverse, bodyLength_list]
  refine ⟨fun ⟨total, htotal, ws, hrun, hmeans⟩ => ⟨ws.reverse, ⟨total, htotal, ?_⟩, hmeans⟩,
    fun ⟨ws, ⟨total, htotal, hrun⟩, hmeans⟩ => ⟨total, htotal, ws.reverse, hrun, ?_⟩⟩
  · rw [List.reverse_reverse]
    exact hrun
  · rw [List.reverse_reverse]
    exact hmeans

theorem convert_eq_ok_iff {ws? : Option (List β)} {as? : Option (List α)} {n n' : Nat} :
    k.convert (ws?, n) = .ok (as?, n') ↔ n' = n ∧ Option.Rel k.Means ws? as? := by
  cases ws? with
  | none =>
    refine ⟨fun h => ?_, ?_⟩
    · cases h
      exact ⟨rfl, .none⟩
    · rintro ⟨rfl, ⟨⟩⟩
      rfl
  | some ws =>
    refine ⟨fun h => ?_, ?_⟩
    · obtain ⟨as, hmeans, hgot⟩ := of_bind_eq_ok ((Format.map_eq_bind _ _).symm.trans h)
      cases hgot
      exact ⟨rfl, .some hmeans⟩
    · rintro ⟨rfl, hmeans⟩
      cases hmeans with
      | some hmeans => exact congrArg (Except.map _) hmeans

/-- A stream is read exactly if it is read as wire values that are all converted back, whatever it does. The same bytes
are taken of it. -/
theorem readFrom_list_iff {n : Nat} {i i' : Inlet} {as? : Option (List α)} :
    (k.list order).readFrom i = (.ok (as?, n), i') ↔
      ∃ ws?, (k.wireList order).readFrom i = (.ok (ws?, n), i') ∧ Option.Rel k.Means ws? as? := by
  rcases hfirst : Collection.readCountFrom i with ⟨e | ⟨_ | count, size⟩, i₁⟩
  · simp [Collection.readFrom, hfirst]
  · simp only [Collection.readFrom, hfirst]
    refine ⟨fun h => ?_, ?_⟩
    · cases h
      exact ⟨none, rfl, .none⟩
    · rintro ⟨ws?, h, hmeans⟩
      cases h
      cases hmeans
      rfl
  · simp only [Collection.readFrom_eq_ok_iff hfirst, readElementsFrom_list_iff]
    refine ⟨?_, ?_⟩
    · rintro ⟨as, body, rfl, rfl, ws, hread, hmeans⟩
      exact ⟨some ws, ⟨ws, body, rfl, rfl, hread⟩, .some hmeans⟩
    · rintro ⟨ws?, ⟨ws, body, rfl, rfl, hread⟩, hmeans⟩
      cases hmeans with
      | some hmeans => exact ⟨_, body, rfl, rfl, ws, hread, hmeans⟩

/-- A buffer is read exactly if it is read as wire values that are all converted back. -/
theorem read_list_iff {src : Bytes} {n : Nat} {as? : Option (List α)} :
    (k.list order).read src = .ok (as?, n) ↔
      ∃ ws?, (k.wireList order).read src = .ok (ws?, n) ∧ Option.Rel k.Means ws? as? := by
  rw [read_list]
  refine ⟨fun h => ?_, ?_⟩
  · obtain ⟨⟨ws?, n'⟩, hread, hconvert⟩ := of_bind_eq_ok h
    obtain ⟨rfl, hmeans⟩ := convert_eq_ok_iff.mp hconvert
    exact ⟨ws?, hread, hmeans⟩
  · rintro ⟨ws?, hread, hmeans⟩
    rw [hread]
    exact convert_eq_ok_iff.mpr ⟨rfl, hmeans⟩

/-! ### Single values -/

def convertOne (k : Conversion α β) (read : β × Nat) : Except ValueError (α × Nat) :=
  (k.ofWire read.1).map (·, read.2)

theorem read_scalar (src : Bytes) :
    (Format.scalar (k.element order)).read src
      = ((Format.scalar (.plain k.plain order)).read src).bind k.convertOne := by
  show (if reaches k.plain.size src then _ else _)
    = (if reaches k.plain.size src then _ else _ : Except ValueError (β × Nat)).bind k.convertOne
  split
  · rfl
  · rfl

theorem readFrom_scalar (s : Source) :
    (Format.scalar (k.element order)).readFrom s =
      (((Format.scalar (.plain k.plain order)).readFrom s).1.bind k.convertOne,
        ((Format.scalar (.plain k.plain order)).readFrom s).2) := by
  simp only [Format.scalar]
  rw [show (ElementCodec.plain k.plain order).size = (k.element order).size from rfl]
  obtain ⟨_ | bs, s'⟩ := s.takeExactly (k.element order).size
  · rfl
  · rfl

theorem bind_convertOne_eq_ok_iff {read : Except ValueError (β × Nat)} {a : α} {n : Nat} :
    read.bind k.convertOne = .ok (a, n) ↔ ∃ w, read = .ok (w, n) ∧ k.ofWire w = .ok a := by
  refine ⟨fun h => ?_, ?_⟩
  · obtain ⟨⟨w, n'⟩, hread, hconvert⟩ := of_bind_eq_ok h
    obtain ⟨b, hw, hgot⟩ := of_bind_eq_ok ((Format.map_eq_bind _ _).symm.trans hconvert)
    cases hgot
    exact ⟨w, hread, hw⟩
  · rintro ⟨w, rfl, hw⟩
    exact congrArg (Except.map _) hw

theorem readFrom_scalar_iff {s s' : Source} {a : α} {n : Nat} :
    (Format.scalar (k.element order)).readFrom s = (.ok (a, n), s') ↔
      ∃ w, (Format.scalar (.plain k.plain order)).readFrom s = (.ok (w, n), s') ∧ k.ofWire w = .ok a := by
  rw [readFrom_scalar, Prod.mk.injEq, bind_convertOne_eq_ok_iff]
  refine ⟨fun ⟨⟨w, hread, hw⟩, hs⟩ => ⟨w, Prod.ext hread hs, hw⟩, fun ⟨w, hread, hw⟩ => ?_⟩
  rw [hread]
  exact ⟨⟨w, rfl, hw⟩, rfl⟩

end Conversion

/-! ### The types that are converted -/

namespace Conversion

theorem bool_of_word (b : Bool) :
    (.ok ((if b then 1 else 0 : BitVec (8 * 1)) != 0) : Except ValueError Bool) = .ok b := by
  cases b with
  | false => rfl
  | true => rfl

theorem charOfWord_toNat (c : Char) : Ty.charOfWord (BitVec.ofNat (8 * 4) c.toNat) = .ok c := by
  have hcodec := (Ty.charCodec .little).decode_encode c
  change Ty.charOfWord ((Plain.word 4).ofImage ((Plain.word 4).image _)) = _ at hcodec
  rwa [(Plain.word 4).ofImage_image] at hcodec

def ofBool : Conversion Bool (BitVec (8 * 1)) where
  plain := .word 1
  align := 1
  toWire b := if b then 1 else 0
  ofWire w := .ok (w != 0)
  size_pos := by decide
  size_le := by decide
  ofWire_toWire := bool_of_word

def ofChar : Conversion Char (BitVec (8 * 4)) where
  plain := .word 4
  align := 4
  toWire c := BitVec.ofNat (8 * 4) c.toNat
  ofWire := Ty.charOfWord
  size_pos := by decide
  size_le := by decide
  ofWire_toWire := charOfWord_toNat

def ofMachine : Conversion (BitVec (8 * Ty.machineWidth)) (BitVec (8 * 8)) where
  plain := .word 8
  align := 8
  toWire := id
  ofWire := .ok
  size_pos := by decide
  size_le := by decide
  ofWire_toWire _ := rfl

end Conversion

/-- The types of elements that go through a wire type. -/
inductive Converted where
  | bool
  | char
  | usize
  | isize
  deriving DecidableEq

namespace Converted

def ty : Converted → Ty
  | bool => .bool
  | char => .char
  | usize => .usize
  | isize => .isize

def wire : Converted → Scalar
  | bool => .u8
  | char => .u32
  | usize => .u64
  | isize => .i64

def conversion : (k : Converted) → Conversion k.ty.Value k.wire.Word
  | bool => .ofBool
  | char => .ofChar
  | usize => .ofMachine
  | isize => .ofMachine

/-- The numbers that are values. All are, but for characters. -/
def HasValue : (k : Converted) → k.wire.Word → Prop
  | bool, _ => True
  | char, w => (w : BitVec (8 * 4)).toNat.isValidChar
  | usize, _ => True
  | isize, _ => True

def value : (k : Converted) → k.wire.Word → k.ty.Value
  | bool, w => ((w : BitVec (8 * 1)) != 0 : Bool)
  | char, w => Char.ofNat (w : BitVec (8 * 4)).toNat
  | usize, w => w
  | isize, w => w

variable {k : Converted} {order : ByteOrder}

theorem ofWire_eq_ok_iff (k : Converted) {w : k.wire.Word} {v : k.ty.Value} :
    k.conversion.ofWire w = .ok v ↔ k.HasValue w ∧ v = k.value w := by
  cases k with
  | bool => exact ⟨fun h => ⟨trivial, (Except.ok.inj h).symm⟩, fun h => congrArg Except.ok h.2.symm⟩
  | char =>
    show Ty.charOfWord w = .ok v ↔ Nat.isValidChar (BitVec.toNat w) ∧ v = Char.ofNat (BitVec.toNat w)
    unfold Ty.charOfWord
    split
    case isTrue hvalid => exact ⟨fun h => ⟨hvalid, (Except.ok.inj h).symm⟩,
      fun h => congrArg Except.ok h.2.symm⟩
    case isFalse hinvalid => exact ⟨fun h => (nomatch h), fun h => absurd h.1 hinvalid⟩
  | usize => exact ⟨fun h => ⟨trivial, (Except.ok.inj h).symm⟩, fun h => congrArg Except.ok h.2.symm⟩
  | isize => exact ⟨fun h => ⟨trivial, (Except.ok.inj h).symm⟩, fun h => congrArg Except.ok h.2.symm⟩

theorem means_iff {ws : List k.wire.Word} {vs : List k.ty.Value} :
    k.conversion.Means ws vs ↔ (∀ w ∈ ws, k.HasValue w) ∧ vs = ws.map k.value := by
  induction ws generalizing vs with
  | nil => simp [Conversion.Means, pure, Except.pure, eq_comm]
  | cons w ws ih =>
    simp only [Conversion.means_cons_iff, ofWire_eq_ok_iff, ih, List.forall_mem_cons, List.map_cons]
    refine ⟨?_, ?_⟩
    · rintro ⟨v, vs', ⟨hw, rfl⟩, ⟨hws, rfl⟩, rfl⟩
      exact ⟨⟨hw, hws⟩, rfl⟩
    · rintro ⟨⟨hw, hws⟩, rfl⟩
      exact ⟨_, _, ⟨hw, rfl⟩, ⟨hws, rfl⟩, rfl⟩

/-- The values of wire numbers that were read, of which null has none. -/
def AllValues (k : Converted) (ws? : Option (List k.wire.Word)) : Prop := ∀ ws ∈ ws?, ∀ w ∈ ws, k.HasValue w

theorem rel_means_iff {ws? : Option (List k.wire.Word)} {vs? : Option (List k.ty.Value)} :
    Option.Rel k.conversion.Means ws? vs? ↔ k.AllValues ws? ∧ vs? = ws?.map (List.map k.value) := by
  refine ⟨fun h => ?_, ?_⟩
  · cases h with
    | none => exact ⟨fun _ hnone => (nomatch hnone), rfl⟩
    | some hmeans =>
      obtain ⟨hall, rfl⟩ := means_iff.mp hmeans
      refine ⟨fun ws hws => ?_, rfl⟩
      cases hws
      exact hall
  · rintro ⟨hall, rfl⟩
    cases ws? with
    | none => exact .none
    | some ws => exact .some (means_iff.mpr ⟨hall ws rfl, rfl⟩)

theorem codec?_conversion (k : Converted) (order : ByteOrder) :
    k.ty.codec? order = some (k.conversion.list order).codec
      ∧ (Ty.scalar k.wire).codec? order = some (k.conversion.wireList order).codec := by
  cases k
  · exact ⟨rfl, rfl⟩
  · exact ⟨rfl, rfl⟩
  · exact ⟨rfl, rfl⟩
  · exact ⟨rfl, rfl⟩

/-! ### One wire format -/

/-- Values are written as the numbers that they go through, into slots and buffers and to sinks, and fail as these do.
-/
structure WritesAs (k : Converted) (order : ByteOrder) : Prop where
  slots : ∀ address vs dst, k.conversion.encodeOntoAt order address vs dst
    = (k.conversion.element order).encodeOnto vs dst
  list : ∀ vs dst, (k.conversion.list order).writeAll vs dst
    = (k.conversion.wireList order).writeAll (vs.map k.conversion.toWire) dst
  declared : ∀ declared vs dst, (k.conversion.list order).writeDeclared declared vs dst
    = (k.conversion.wireList order).writeDeclared declared (vs.map k.conversion.toWire) dst
  uncounted : ∀ upper? vs dst, (k.conversion.list order).writeUncounted upper? vs dst
    = (k.conversion.wireList order).writeUncounted upper? (vs.map k.conversion.toWire) dst
  steady : ∀ (s : Sink) vs (first second : StagingLimits), s.Steady → first.Allocatable → second.Allocatable →
    Collection.SameWrite ((k.conversion.list order).writeAllTo vs ⟨s, first⟩)
      ((k.conversion.wireList order).writeAllTo (vs.map k.conversion.toWire) ⟨s, second⟩)
  delivers : ∀ vs (o o' : Outlet), vs.length ≤ CountHeader.maxCount → o.staging.Allocatable →
    o'.staging.Allocatable → ∃ code, o.sink.Delivers code
        (((k.conversion.list order).writeAllTo vs o).1, ((k.conversion.list order).writeAllTo vs o).2.sink)
      ∧ o'.sink.Delivers code
        (((k.conversion.wireList order).writeAllTo (vs.map k.conversion.toWire) o').1,
          ((k.conversion.wireList order).writeAllTo (vs.map k.conversion.toWire) o').2.sink)
  declaredTo : ∀ declared vs o, (k.conversion.list order).writeDeclaredTo declared vs o
    = (k.conversion.wireList order).writeDeclaredTo declared (vs.map k.conversion.toWire) o
  one : ∀ v dst, (Format.scalar (k.conversion.element order)).write v dst
    = (Format.scalar (.plain k.conversion.plain order)).write (k.conversion.toWire v) dst
  oneTo : ∀ v s, (Format.scalar (k.conversion.element order)).writeTo v s
    = (Format.scalar (.plain k.conversion.plain order)).writeTo (k.conversion.toWire v) s

/-- Values are read exactly if the numbers that they go through are and all of them have values, whatever the stream
does. -/
structure ReadsAs (k : Converted) (order : ByteOrder) : Prop where
  slots : ∀ address src dst, k.conversion.decodeOntoAt order address src dst
    = (k.conversion.element order).decodeOnto src dst
  list : ∀ src vs? n, (k.conversion.list order).read src = .ok (vs?, n) ↔
    ∃ ws?, (k.conversion.wireList order).read src = .ok (ws?, n) ∧ k.AllValues ws?
      ∧ vs? = ws?.map (List.map k.value)
  listFrom : ∀ i i' vs? n, (k.conversion.list order).readFrom i = (.ok (vs?, n), i') ↔
    ∃ ws?, (k.conversion.wireList order).readFrom i = (.ok (ws?, n), i') ∧ k.AllValues ws?
      ∧ vs? = ws?.map (List.map k.value)
  one : ∀ src v n, (Format.scalar (k.conversion.element order)).read src = .ok (v, n) ↔
    ∃ w, (Format.scalar (.plain k.conversion.plain order)).read src = .ok (w, n) ∧ k.HasValue w ∧ v = k.value w
  oneFrom : ∀ s s' v n, (Format.scalar (k.conversion.element order)).readFrom s = (.ok (v, n), s') ↔
    ∃ w, (Format.scalar (.plain k.conversion.plain order)).readFrom s = (.ok (w, n), s') ∧ k.HasValue w
      ∧ v = k.value w

theorem writesAs (k : Converted) (order : ByteOrder) : k.WritesAs order where
  slots _ _ _ := Conversion.encodeOntoAt_eq ..
  list _ _ := Conversion.writeAll_list ..
  declared _ _ _ := Conversion.writeDeclared_list ..
  uncounted _ _ _ := Conversion.writeUncounted_list ..
  steady _ vs _ _ hs hfirst hsecond := Conversion.sameWrite_writeAllTo hs vs hfirst hsecond
  delivers _ _ _ hcount hstaging hstaging' :=
    ⟨_, Conversion.delivers_list hcount hstaging, Conversion.delivers_wireList hcount hstaging'⟩
  declaredTo _ _ _ := Conversion.writeDeclaredTo_list ..
  one _ _ := rfl
  oneTo _ _ := rfl

theorem readsAs (k : Converted) (order : ByteOrder) : k.ReadsAs order where
  slots _ _ _ := Conversion.decodeOntoAt_eq ..
  list src vs? n := by
    simp only [← rel_means_iff]
    exact Conversion.read_list_iff
  listFrom i i' vs? n := by
    simp only [← rel_means_iff]
    exact Conversion.readFrom_list_iff
  one src v n := by
    simp only [← ofWire_eq_ok_iff]
    rw [Conversion.read_scalar]
    exact Conversion.bind_convertOne_eq_ok_iff
  oneFrom s s' v n := by
    simp only [← ofWire_eq_ok_iff]
    exact Conversion.readFrom_scalar_iff

/-- **Values that go through a wire type have the format of that type**, in both byte orders: they are written and read
as its numbers. -/
theorem same_wire_format (k : Converted) (order : ByteOrder) :
    k.ty.codec? order = some (k.conversion.list order).codec
      ∧ (Ty.scalar k.wire).codec? order = some (k.conversion.wireList order).codec
      ∧ k.WritesAs order ∧ k.ReadsAs order :=
  ⟨(codec?_conversion k order).1, (codec?_conversion k order).2, writesAs k order, readsAs k order⟩

/-- A surrogate is a number and no character. At an odd address a character is loaded byte by byte. -/
example : (Conversion.ofChar.wireList .little).read [1, 1, 0, 0xd8, 0, 0] = .ok (some [0xd800], 6)
    ∧ ((Conversion.ofChar.list .little).read [1, 1, 0, 0xd8, 0, 0]).toOption = none
    ∧ Conversion.ofChar.decodeAt .little 3 [0x61, 0, 0, 0] = .ok 'a' := by
  decide +kernel

end Converted

end MessageWire
