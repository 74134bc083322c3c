import Mathlib
import MessageWire.Proofs.Value.Limits
import MessageWire.Proofs.Value.Lockstep
import MessageWire.Proofs.Value.Members
/-!
# Sequences that declare a length

A sequence may declare another length than it has. Its header is written first, so the mistake shows when a member is
missing in its place or when there is one left behind the last place; either way the members are counted to the end
(`Collection.declared_length_exact`). It does not show where the declared members have no length that a word holds, or
where there cannot be a buffer for them (`Collection.declared_length_missed`).

The writers are told here member by member. `Collection.writeMembers` puts the members into a destination, and
`Collection.writeMembersTo` encodes them into the slots of a staging buffer, chunk by chunk. Both come to what the list
of all members does (`Collection.writeMembers_eq`, `Collection.writeMembersTo_eq`).
-/

namespace MessageWire

variable {α : Type}

/-! ### Slots -/

/-- Encodes members into slots, one after the other. A member that is missing in its place ends that. -/
def ElementCodec.encodeSlots (e : ElementCodec α) (declared : Nat) :
    (slots : Nat) → Iteration α → Except ValueError Bytes × Iteration α
  | 0, i => (.ok [], i)
  | _ + 1, ⟨taken, []⟩ => (.error (.lengthMismatch declared taken), ⟨taken, []⟩)
  | slots + 1, ⟨taken, v :: ahead⟩ =>
    let (result, i) := e.encodeSlots declared slots ⟨taken + 1, ahead⟩
    (result.map (e.encode v ++ ·), i)

theorem ElementCodec.encodeSlots_eq (e : ElementCodec α) (declared slots taken : Nat) (ahead : List α) :
    e.encodeSlots declared slots ⟨taken, ahead⟩ =
      if ahead.length < slots then
        (.error (.lengthMismatch declared (taken + ahead.length)), ⟨taken + ahead.length, []⟩)
      else (.ok (e.encodeList (ahead.take slots)), ⟨taken + slots, ahead.drop slots⟩) := by
  induction slots generalizing taken ahead with
  | zero => rfl
  | succ slots ih =>
    cases ahead with
    | nil => rfl
    | cons v ahead =>
      have htaken : taken + 1 + ahead.length = taken + (ahead.length + 1) := by omega
      have hslots : taken + 1 + slots = taken + (slots + 1) := by omega
      simp only [encodeSlots, ih, List.length_cons, Nat.add_lt_add_iff_right, htaken, hslots]
      split
      · rfl
      · rfl

namespace Collection

variable (c : Collection α)

/-! ### Writing members -/

/-- Writes a sequence that declares `declared` members: their header, and then one member after the other. -/
def writeMembers (declared : Nat) (vs : List α) (dst : Bytes) : Except ValueError Nat × Bytes :=
  match CountHeader.write (some declared) dst with
  | (.error e, dst') => (.error e, dst')
  | (.ok header, dst') =>
    match c.bodyLength declared with
    | .error e => (.error e, dst')
    | .ok body =>
      match c.putMembers (fun _ => saturate (header + body)) declared header dst' (.along vs) with
      | (.error e, dst'') => (.error e, dst'')
      | (.ok (stop, i), dst'') => ((i.confirm declared).map fun () => stop, dst'')

def encodeMembers (declared : Nat) (span : Span) (i : Iteration α) : Except ValueError Bytes × Iteration α :=
  c.codec.element.encodeSlots declared (span.length / c.elementSize) i

/-- Writes a sequence that declares `declared` members to a sink. -/
def writeMembersTo (declared : Nat) (vs : List α) (o : Outlet) : Except ValueError Nat × Outlet :=
  match c.bodyLength declared with
  | .error e => (.error e, o)
  | .ok total =>
    match writeCountTo declared o with
    | (.error e, o') => (.error e, o')
    | (.ok header, o') =>
      match o'.stage total c.elementSize (c.encodeMembers declared) (.along vs) with
      | (.error e, o'', _) => (.error e, o'')
      | (.ok body, o'', i) => ((i.confirm declared).map fun () => header + body, o'')

theorem length_writeCount (count? : Option Nat) (dst : Bytes) :
    (CountHeader.write count? dst).2.length = dst.length := by
  unfold CountHeader.write
  split
  · rfl
  · exact length_putFront _ _

/-- Members that are put one by one come to what the whole list does. -/
theorem writeMembers_eq (declared : Nat) (vs : List α) (dst : Bytes) :
    c.writeMembers declared vs dst = c.writeDeclared declared vs dst := by
  have hlen := length_writeCount (some declared) dst
  unfold writeMembers writeDeclared
  generalize CountHeader.write (some declared) dst = first at hlen ⊢
  obtain ⟨e | header, dst'⟩ := first
  · rfl
  · change dst'.length = dst.length at hlen
    simp only [Iteration.along, putMembers_eq, hlen]
    cases hbody : c.bodyLength declared with
    | error e => rfl
    | ok body =>
    obtain rfl := c.eq_of_bodyLength hbody
    simp only
    by_cases hshort : (c.fitting (dst.length - header) (vs.take declared)).length < (vs.take declared).length
    · rw [if_pos hshort, if_pos hshort]
    · rw [if_neg hshort, if_neg hshort]
      simp only [Nat.zero_add, Iteration.confirm_taken]
      by_cases hlie : vs.length ≠ declared
      · rw [if_pos hlie, if_pos hlie]
        rfl
      · have hall : (vs.take declared).length = declared := by
          rw [List.length_take]
          omega
        rw [if_neg hlie, if_neg hlie, hall]
        rfl

/-! ### Chunk by chunk -/

/-- What becomes of `slots` slots that are filled from an iteration, next to what becomes of them if all of its members
are known. -/
structure FillsSlots (declared slots : Nat) (s : Sink) (i : Iteration α)
    (each : Except ValueError Unit × Sink × Iteration α)
    (all : Except ValueError Unit × Sink × List α) : Prop where
  result : each.1 = all.1
  sink : each.2.1 = all.2.1
  ok : each.1 = .ok () → slots ≤ i.ahead.length ∧ each.2.2 = ⟨i.taken + slots, i.ahead.drop slots⟩
    ∧ all.2.2 = i.ahead.drop slots
  steady : each.1 = .ok () → s.Steady → each.2.1.Steady
  error : ∀ e, each.1 = .error e → (∃ e', e = .io e') ∧ ¬ s.Steady
    ∨ e = .lengthMismatch declared (i.taken + i.ahead.length) ∧ i.ahead.length < slots

variable {c} {declared slots later : Nat} {s s' : Sink} {i i' : Iteration α} {left : List α}
  {each : Except ValueError Unit × Sink × Iteration α} {all : Except ValueError Unit × Sink × List α}

theorem fillsSlots_zero (declared : Nat) (s : Sink) (i : Iteration α) :
    FillsSlots declared 0 s i (.ok (), s, i) (.ok (), s, i.ahead) where
  result := rfl
  sink := rfl
  ok _ := ⟨Nat.zero_le _, rfl, rfl⟩
  steady _ hs := hs
  error _ he := nomatch he

theorem fillsSlots_of_error {e : ValueError} (h : (∃ e', e = .io e') ∧ ¬ s.Steady
      ∨ e = .lengthMismatch declared (i.taken + i.ahead.length) ∧ i.ahead.length < slots) :
    FillsSlots declared slots s i (.error e, s', i') (.error e, s', left) where
  result := rfl
  sink := rfl
  ok hok := nomatch hok
  steady hok := nomatch hok
  error e' he := by
    cases he
    exact h

theorem fillsSlots_putSpan (c : Collection α) (declared : Nat) (s : Sink) (i : Iteration α) {span : Span}
    (hspan : span.length = slots * c.elementSize) :
    FillsSlots declared slots s i (Sink.putSpan (c.encodeMembers declared) span (s, i))
      (Sink.putSpan (c.encodeDeclaredSpan declared (i.taken + i.ahead.length)) span (s, i.ahead)) := by
  obtain ⟨taken, ahead⟩ := i
  have hslots : span.length / c.elementSize = slots := by
    rw [hspan]
    exact Nat.mul_div_cancel _ c.size_pos
  simp only [Sink.putSpan, encodeMembers, encodeDeclaredSpan, hslots, ElementCodec.encodeSlots_eq, reaches_iff]
  by_cases hshort : ahead.length < slots
  · rw [if_pos hshort, if_neg (Nat.not_le_of_lt hshort)]
    exact fillsSlots_of_error (.inr ⟨rfl, hshort⟩)
  · have hwritten := s.takes_writeAll (c.codec.element.encodeList (ahead.take slots))
    rw [if_neg hshort, if_pos (Nat.le_of_not_lt hshort)]
    simp only
    generalize s.writeAll (c.codec.element.encodeList (ahead.take slots)) = written at hwritten ⊢
    obtain ⟨e' | _, s'⟩ := written
    · exact fillsSlots_of_error (.inl ⟨⟨e', rfl⟩, hwritten.2⟩)
    · refine ⟨rfl, rfl, fun _ => ⟨Nat.le_of_not_lt hshort, rfl, rfl⟩, fun _ => hwritten.2, fun e he => ?_⟩
      cases he

theorem FillsSlots.append (h : FillsSlots declared slots s i (.ok (), s', i') (.ok (), s', left))
    (hlater : FillsSlots declared later s' i' each all) : FillsSlots declared (slots + later) s i each all := by
  obtain ⟨hslots, rfl, -⟩ := h.ok rfl
  have hahead : (i.ahead.drop slots).length = i.ahead.length - slots := List.length_drop
  refine ⟨hlater.result, hlater.sink, fun hok => ?_, fun hok hs => hlater.steady hok (h.steady rfl hs),
    fun e he => ?_⟩
  · obtain ⟨hmore, heach, hall⟩ := hlater.ok hok
    rw [hahead] at hmore
    refine ⟨by omega, ?_, ?_⟩
    · rw [heach, List.drop_drop, Nat.add_assoc]
    · rw [hall, List.drop_drop]
  · rcases hlater.error e he with ⟨hio, hnot⟩ | ⟨rfl, hshort⟩
    · exact .inl ⟨hio, fun hs => hnot (h.steady rfl hs)⟩
    · rw [hahead] at hshort ⊢
      refine .inr ⟨?_, by omega⟩
      rw [show i.taken + slots + (i.ahead.length - slots) = i.taken + i.ahead.length by omega]

theorem FillsSlots.append_of_error {e : ValueError} (h : FillsSlots declared slots s i (.error e, s', i') all)
    (later : Nat) : FillsSlots declared (slots + later) s i (.error e, s', i') all where
  result := h.result
  sink := h.sink
  ok hok := nomatch hok
  steady hok := nomatch hok
  error e' he := (h.error e' he).imp_right fun ⟨heq, hshort⟩ => ⟨heq, Nat.lt_add_right later hshort⟩

/-- An iteration over `yielded` members, and the list of those that are ahead. -/
def InStep (yielded : Nat) (one : Sink × Iteration α) (whole : Sink × List α) : Prop :=
  one.1 = whole.1 ∧ one.2.ahead = whole.2 ∧ one.2.taken + one.2.ahead.length = yielded

theorem lockstep_encodeMembers (c : Collection α) (declared yielded : Nat) :
    Lockstep c.elementSize (Sink.putSpan (c.encodeMembers declared))
      (Sink.putSpan (c.encodeDeclaredSpan declared yielded))
      (InStep yielded)
      (fun slots one _ each all => FillsSlots declared slots one.1 one.2 each all) where
  none := by
    rintro ⟨s, i⟩ ⟨_, _⟩ ⟨rfl, rfl, -⟩
    exact fillsSlots_zero declared s i
  span := by
    rintro span slots ⟨s, i⟩ ⟨_, _⟩ ⟨rfl, rfl, rfl⟩ hspan
    exact fillsSlots_putSpan c declared s i hspan
  result _ _ _ _ _ h := h.result
  next := by
    rintro slots ⟨s, i⟩ _ ⟨s', i'⟩ ⟨_, left⟩ ⟨-, -, hyielded⟩ h
    obtain ⟨hslots, rfl, rfl⟩ := h.ok rfl
    refine ⟨h.sink, rfl, ?_⟩
    show i.taken + slots + (i.ahead.drop slots).length = yielded
    change i.taken + i.ahead.length = yielded at hyielded
    change slots ≤ i.ahead.length at hslots
    rw [List.length_drop]
    omega
  append := by
    rintro slots later ⟨s, i⟩ _ ⟨s', i'⟩ ⟨_, left⟩ each all h hlater
    obtain rfl := h.sink
    exact h.append hlater
  stop _ later _ _ _ _ _ h := h.append_of_error later

theorem fillsSlots_stage (c : Collection α) {declared : Nat} (vs : List α) {o : Outlet}
    (hroom : o.staging.Allocates (declared * c.elementSize) c.elementSize) :
    let each := o.stage (declared * c.elementSize) c.elementSize (c.encodeMembers declared) (.along vs)
    let all := o.stage (declared * c.elementSize) c.elementSize (c.encodeDeclaredSpan declared vs.length) vs
    each.1 = all.1 ∧ each.2.1 = all.2.1 ∧ (∀ n, all.1 = .ok n → n = declared * c.elementSize)
      ∧ FillsSlots declared declared o.sink (.along vs) (each.1.map fun _ => (), each.2.1.sink, each.2.2)
        (all.1.map fun _ => (), all.2.1.sink, all.2.2) := by
  have hstart : InStep vs.length (o.sink, .along vs) (o.sink, vs) := ⟨rfl, rfl, Nat.zero_add _⟩
  obtain ⟨hresult, hbody, hfills⟩ :=
    (c.lockstep_encodeMembers declared vs.length).run c.size_pos hroom hstart
  unfold Outlet.stage
  refine ⟨hresult, ?_, hbody, hfills⟩
  exact congrArg (Outlet.mk · _) hfills.sink

/-- Members that are encoded chunk by chunk come to what the whole list does. -/
theorem writeMembersTo_eq (declared : Nat) (vs : List α) (o : Outlet) :
    c.writeMembersTo declared vs o = c.writeDeclaredTo declared vs o := by
  unfold writeMembersTo writeDeclaredTo
  by_cases hword : declared * c.elementSize ≤ maxWord
  case neg => rw [c.bodyLength_of_lt (Nat.lt_of_not_le hword)]
  rw [c.bodyLength_of_le hword]
  simp only
  generalize writeCountTo declared o = first
  obtain ⟨e | header, o'⟩ := first
  · rfl
  · by_cases hroom : o'.staging.Allocates (declared * c.elementSize) c.elementSize
    case neg => simp only [Outlet.stage_of_not_allocates hroom]
    have hstage := fillsSlots_stage c vs hroom
    simp only at hstage ⊢
    generalize o'.stage _ _ (c.encodeMembers declared) _ = each at hstage ⊢
    generalize o'.stage _ _ (c.encodeDeclaredSpan declared vs.length) _ = all at hstage ⊢
    obtain ⟨result, outlet, i⟩ := each
    obtain ⟨result', outlet', left⟩ := all
    obtain ⟨rfl, rfl, -, hfills⟩ := hstage
    cases result with
    | error e => rfl
    | ok body =>
      -- All slots were filled, so what is left to find out is whether there are more members.
      obtain ⟨hle, rfl, rfl⟩ := hfills.ok rfl
      change declared ≤ vs.length at hle
      have hlen : (vs.drop declared).length = vs.length - declared := List.length_drop
      simp only [Iteration.along, Nat.zero_add, Iteration.confirm_drop hle]
      generalize vs.drop declared = left at hlen ⊢
      cases left with
      | nil =>
        rw [List.length_nil] at hlen
        rw [if_pos (by omega)]
        rfl
      | cons v left =>
        rw [List.length_cons] at hlen
        rw [if_neg (by omega)]
        rfl

/-! ### Declared and found -/

theorem io_of_put {s : Sink} {data : Bytes} {e : ValueError} (h : (s.put data).1 = .error e) : ∃ e', e = .io e' := by
  unfold Sink.put at h
  split at h
  · cases h
  · cases h
    exact ⟨_, rfl⟩

/-- Nothing but a failure of the sink keeps a sequence that declared another length from being found out. -/
theorem writeDeclaredTo_cases (hcount : declared ≤ CountHeader.maxCount)
    (hword : declared * c.elementSize ≤ maxWord)
    (vs : List α) {o : Outlet} (hroom : o.staging.Allocates (declared * c.elementSize) c.elementSize) :
    (∃ e, (c.writeDeclaredTo declared vs o).1 = .error (.io e)) ∧ ¬ o.sink.Steady
      ∨ (c.writeDeclaredTo declared vs o).1 =
        if vs.length = declared then .ok (CountHeader.sizeFor declared + declared * c.elementSize)
        else .error (.lengthMismatch declared vs.length) := by
  have hheader := o.sink.delivers_countHeader hcount
  rw [← writeMembersTo_eq]
  unfold writeMembersTo writeCountTo
  rw [c.bodyLength_of_le hword]
  simp only
  rw [CountHeader.writeTo, CountHeader.bytes_some hcount] at hheader ⊢
  simp only at hheader ⊢
  generalize hput : o.sink.put (CountHeader.least declared) = first at hheader ⊢
  obtain ⟨e | header, sink⟩ := first
  · obtain ⟨e', rfl⟩ := io_of_put (congrArg Prod.fst hput)
    exact .inl ⟨⟨e', rfl⟩, hheader.takes.2⟩
  · obtain rfl := hheader.length header rfl
    obtain ⟨hresult, -, hbody, hfills⟩ := fillsSlots_stage c vs (o := { o with sink := sink }) hroom
    rw [← hresult] at hbody
    simp only
    generalize Outlet.stage _ _ _ (c.encodeMembers declared) _ = each at hbody hfills ⊢
    obtain ⟨result, outlet, i⟩ := each
    cases result with
    | error e =>
      rcases hfills.error e rfl with ⟨⟨e', rfl⟩, hnot⟩ | ⟨rfl, hshort⟩
      · exact .inl ⟨⟨e', rfl⟩, fun hs => hnot (hheader.takes.2 hs)⟩
      · change vs.length < declared at hshort
        right
        rw [if_neg (Nat.ne_of_lt hshort)]
        simp only [Iteration.along, Nat.zero_add]
    | ok body =>
      obtain ⟨hle, rfl, -⟩ := hfills.ok rfl
      obtain rfl := hbody body rfl
      change declared ≤ vs.length at hle
      right
      simp only [Iteration.along, Nat.zero_add, Iteration.confirm_drop hle, CountHeader.length_least]
      split
      · rfl
      · rfl

/-- A destination that has room for what is declared tells every sequence of another length by its own. -/
theorem writeDeclared_fst {vs : List α} {dst : Bytes} (hcount : declared ≤ CountHeader.maxCount)
    (hword : declared * c.elementSize ≤ maxWord)
    (hroom : CountHeader.sizeFor declared + declared * c.elementSize ≤ dst.length) :
    (c.writeDeclared declared vs dst).1 =
      if vs.length = declared then .ok (CountHeader.sizeFor declared + declared * c.elementSize)
      else .error (.lengthMismatch declared vs.length) := by
  have hheader : (CountHeader.least declared).length ≤ dst.length := by
    rw [CountHeader.length_least]
    omega
  have hwanted : (vs.take declared).length * c.elementSize ≤ declared * c.elementSize :=
    Nat.mul_le_mul_right _ (List.length_take_le _ _)
  have hall : c.fitting (dst.length - CountHeader.sizeFor declared) (vs.take declared) = vs.take declared :=
    Format.fitting_of_le c (by omega)
  rw [writeDeclared, CountHeader.write, CountHeader.bytes_some hcount]
  simp only [putFront_of_le hheader, c.bodyLength_of_le hword, CountHeader.length_least, hall, Nat.lt_irrefl, if_false]
  by_cases hlie : vs.length = declared
  · rw [if_neg (not_not_intro hlie), if_pos hlie]
  · rw [if_pos hlie, if_neg hlie]

/-- Members whose length is no word are refused, in a buffer behind the header. -/
theorem writeDeclared_of_maxWord_lt (hcount : declared ≤ CountHeader.maxCount)
    (hword : maxWord < declared * c.elementSize) (vs : List α) {dst : Bytes}
    (hroom : CountHeader.sizeFor declared ≤ dst.length) :
    (c.writeDeclared declared vs dst).1 = .error (.invalidLength declared) := by
  rw [← CountHeader.length_least] at hroom
  rw [writeDeclared, CountHeader.write, CountHeader.bytes_some hcount]
  simp only [putFront_of_le hroom, c.bodyLength_of_lt hword]

theorem writeDeclaredTo_of_maxWord_lt (hword : maxWord < declared * c.elementSize) (vs : List α) (o : Outlet) :
    c.writeDeclaredTo declared vs o = (.error (.invalidLength declared), o) := by
  rw [writeDeclaredTo, c.bodyLength_of_lt hword]

/-- A sequence that is counted first has the length that it declares. -/
theorem writeUncountedTo_ne_mismatch (vs : List α) (o : Outlet) (declared actual : Nat) :
    (c.writeUncountedTo vs o).1 ≠ .error (.lengthMismatch declared actual) := by
  unfold writeUncountedTo
  intro hmismatch
  by_cases hword : vs.length * c.elementSize ≤ maxWord
  case neg =>
    rw [writeDeclaredTo_of_maxWord_lt (Nat.lt_of_not_le hword)] at hmismatch
    cases hmismatch
  by_cases hcount : vs.length ≤ CountHeader.maxCount
  case neg =>
    rw [writeDeclaredTo, c.bodyLength_of_le hword, writeCountTo_of_lt (Nat.lt_of_not_le hcount)] at hmismatch
    cases hmismatch
  by_cases hroom : o.staging.Allocates (vs.length * c.elementSize) c.elementSize
  case neg =>
    simp only [writeDeclaredTo, c.bodyLength_of_le hword, writeCountTo, CountHeader.writeTo,
      CountHeader.bytes_some hcount] at hmismatch
    generalize hput : o.sink.put (CountHeader.least vs.length) = first at hmismatch
    obtain ⟨e | header, sink⟩ := first
    · obtain ⟨e', rfl⟩ := io_of_put (congrArg Prod.fst hput)
      cases hmismatch
    · simp only [Outlet.stage_of_not_allocates (o := { o with sink := sink }) hroom] at hmismatch
      cases hmismatch
  rcases c.writeDeclaredTo_cases hcount hword vs hroom with ⟨⟨e, hio⟩, -⟩ | hok
  · cases hio.symm.trans hmismatch
  · rw [if_pos rfl] at hok
    cases hok.symm.trans hmismatch

theorem sameWrite_writeUncountedTo {vs : List α} {o : Outlet} (hs : o.sink.Steady)
    (hword : vs.length * c.elementSize ≤ maxWord)
    (hroom : o.staging.Allocates (vs.length * c.elementSize) c.elementSize) :
    SameWrite (c.writeUncountedTo vs o) (c.writeAllTo vs o) := by
  unfold writeUncountedTo
  by_cases hcount : vs.length ≤ CountHeader.maxCount
  · exact sameWrite_of_delivers hs (c.delivers_writeDeclaredTo hcount hword hroom)
      (c.delivers_writeAllTo hcount hword hroom)
  · simp only [writeDeclaredTo, c.bodyLength_of_le hword, writeAllTo, writeCountTo_of_lt (Nat.lt_of_not_le hcount)]
    exact ⟨rfl, rfl⟩

/-- **A declared length that is wrong is told together with the right one**, where the declared members have a length
that is a word and a buffer to go through. -/
theorem declared_length_exact (c : Collection α) {declared : Nat} (hcount : declared ≤ CountHeader.maxCount)
    (vs : List α) :
    let body := declared * c.elementSize
    let total := CountHeader.sizeFor declared + body
    let told : Except ValueError Nat :=
      if vs.length = declared then .ok total else .error (.lengthMismatch declared vs.length)
    (∀ dst, c.writeMembers declared vs dst = c.writeDeclared declared vs dst)
      ∧ (∀ o, c.writeMembersTo declared vs o = c.writeDeclaredTo declared vs o)
      ∧ (body ≤ maxWord →
        (∀ dst, total ≤ dst.length → (c.writeDeclared declared vs dst).1 = told
          ∧ (vs.length = declared → c.writeDeclared declared vs dst = c.writeAll vs dst))
        ∧ ∀ o : Outlet, o.sink.Steady → o.staging.Allocates body c.elementSize →
          (c.writeDeclaredTo declared vs o).1 = told
            ∧ (vs.length = declared → ∀ dst, total ≤ dst.length →
              (c.writeDeclaredTo declared vs o).2.sink.bytes = o.sink.bytes ++ (c.writeAll vs dst).2.take total))
      ∧ (maxWord < body →
        (∀ dst, CountHeader.sizeFor declared ≤ dst.length →
          (c.writeDeclared declared vs dst).1 = .error (.invalidLength declared))
        ∧ ∀ o, c.writeDeclaredTo declared vs o = (.error (.invalidLength declared), o))
      ∧ ∀ o : Outlet, (∀ d a, (c.writeUncountedTo vs o).1 ≠ .error (.lengthMismatch d a))
        ∧ (o.sink.Steady → vs.length * c.elementSize ≤ maxWord →
          o.staging.Allocates (vs.length * c.elementSize) c.elementSize →
            SameWrite (c.writeUncountedTo vs o) (c.writeAllTo vs o)) := by
  intro body total told
  refine ⟨c.writeMembers_eq declared vs, writeMembersTo_eq declared vs, fun hword => ⟨fun dst hroom => ⟨?_, ?_⟩,
    fun o hs hroom => ⟨?_, ?_⟩⟩, fun hword => ⟨fun dst => writeDeclared_of_maxWord_lt hcount hword vs,
    writeDeclaredTo_of_maxWord_lt hword vs⟩,
      fun o => ⟨writeUncountedTo_ne_mismatch vs o, sameWrite_writeUncountedTo⟩⟩
  · exact writeDeclared_fst hcount hword hroom
  · rintro rfl
    have hcode : (Format.listCode c vs).length ≤ dst.length := by
      rw [Format.length_listCode]
      exact hroom
    rw [Format.writeDeclared_of_le c hcount hword hcode, Format.writeAll_eq c hcount hword, putFront_of_le hcode]
  · rcases writeDeclaredTo_cases hcount hword vs hroom with ⟨-, hnot⟩ | htold
    · exact absurd hs hnot
    · exact htold
  · rintro rfl dst hdst
    have hcode : (Format.listCode c vs).length = total := Format.length_listCode c vs
    have hdelivers := c.delivers_writeDeclaredTo hcount hword hroom
    rw [Format.writeAll_eq c hcount hword, putFront_of_le (by omega), ← hcode, List.take_left]
    generalize c.writeDeclaredTo vs.length vs o = got at hdelivers ⊢
    obtain ⟨e | n, o'⟩ := got
    · exact absurd hs hdelivers.takes.2
    · exact hdelivers.takes.1

/-- Two words where three are declared, and where one is. The sink takes a byte, is interrupted, and takes three; the
staging buffer holds one word. -/
theorem declared_length_exact_of_pair :
    let c : Collection (BitVec 16) := ⟨.block (.word 2) .big, by decide⟩
    let o : Outlet := ⟨{ plan := [.give 1, .fail .interrupted, .give 3] },
      { poolThreshold := 0, maxBufferSize := 3 }⟩
    (c.writeDeclared 3 [7, 8] (List.replicate 8 0)).1 = .error (.lengthMismatch 3 2)
      ∧ (c.writeDeclaredTo 3 [7, 8] o).1 = .error (.lengthMismatch 3 2)
      ∧ (c.writeDeclared 1 [7, 8] (List.replicate 8 0)).1 = .error (.lengthMismatch 1 2)
      ∧ (c.writeDeclaredTo 1 [7, 8] o).1 = .error (.lengthMismatch 1 2)
      ∧ (c.writeDeclaredTo 2 [7, 8] o).1 = .ok 6
      ∧ (c.writeDeclaredTo 2 [7, 8] o).2.sink.bytes =
        o.sink.bytes ++ (c.writeAll [7, 8] (List.replicate 8 0)).2.take 6 := by
  intro c o
  have hs : o.sink.Steady := ⟨by decide, by simp [o]⟩
  obtain ⟨-, -, hlong, -⟩ := declared_length_exact c (show 3 ≤ CountHeader.maxCount by decide) [7, 8]
  obtain ⟨-, -, hshort, -⟩ := declared_length_exact c (show 1 ≤ CountHeader.maxCount by decide) [7, 8]
  obtain ⟨-, -, hexact, -⟩ := declared_length_exact c (show 2 ≤ CountHeader.maxCount by decide) [7, 8]
  obtain ⟨hlong, hlongTo⟩ := hlong (by decide)
  obtain ⟨hshort, hshortTo⟩ := hshort (by decide)
  obtain ⟨-, hexactTo⟩ := hexact (by decide)
  obtain ⟨hresult, hbytes⟩ := hexactTo o hs (by decide)
  exact ⟨(hlong _ (by decide)).1, (hlongTo o hs (by decide)).1, (hshort _ (by decide)).1,
    (hshortTo o hs (by decide)).1, hresult, hbytes rfl (List.replicate 8 0) (by decide)⟩

/-- No element of sixteen gigabytes where as many are declared as a header can count, and two words through a buffer
that there cannot be. -/
theorem declared_length_missed :
    let wide : Collection (BitVec (8 * 0x400000000)) := ⟨.block (.word 0x400000000) .little, by decide⟩
    let c : Collection (BitVec 16) := ⟨.block (.word 2) .big, by decide⟩
    let huge : StagingLimits := { poolThreshold := 0xffffffffffffffff, maxBufferSize := 0, poolCapacity := 0 }
    let s : Sink := {}
    s.Steady ∧ huge.fillsPool = true
      ∧ (wide.writeDeclaredTo 2147483647 [] ⟨s, {}⟩).1 = .error (.invalidLength 2147483647)
      ∧ (c.writeDeclaredTo 2 [7, 8] ⟨s, huge⟩).1 = .error .capacityOverflow := by
  intro wide c huge s
  have hs : s.Steady := ⟨by decide, by simp [s]⟩
  have hword : maxWord < 2147483647 * wide.elementSize := by
    show maxWord < 2147483647 * 0x400000000
    decide
  exact ⟨hs, rfl, congrArg Prod.fst (writeDeclaredTo_of_maxWord_lt hword [] ⟨s, {}⟩), by cbv⟩

end Collection

end MessageWire
