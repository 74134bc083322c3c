import MessageWire.Proofs.Framing.Insertion
import MessageWire.Proofs.Framing.Ownership
import MessageWire.Proofs.Framing.Sending
/-!
# Corrupted sizes

The payload size and its check determine each other (`Corrupts.fields`), so an envelope of which one of the two was
replaced is never measured (`Framing.measure_of_mismatch`): the check comes before any use of the size, which may be
anything. The fixed part is needed to see it, and is enough. So the messages in front of such an envelope are given out
however the stream is cut, and the receive that brings the last byte of its fixed part is refused
(`Assembler.corrupted_size_is_refused`).
-/

namespace MessageWire

/-- One of the two size fields at the front of a message is replaced by another value. -/
inductive Corrupts (wire : Bytes) : Bytes → Prop
  | payload {field : Bytes} (length : field.length = 4) (other : field ≠ wire.take 4) :
    Corrupts wire (field ++ wire.drop 4)
  | check {field : Bytes} (length : field.length = 4) (other : field ≠ (wire.drop 4).take 4) :
    Corrupts wire (wire.take 4 ++ field ++ wire.drop 8)

/-! ### The two fields -/

theorem exists_littleEndian_eq {field : Bytes} (h : field.length = 4) :
    ∃ n : UInt32, littleEndian 4 n.toNat = field := by
  refine ⟨.ofNat (ofLittleEndian field), ?_⟩
  rw [toNat_ofLittleEndian (Nat.le_of_eq h), ← h, littleEndian_ofLittleEndian]

theorem Layout.standardCheck_inj {size size' : UInt32} (h : standardCheck size = standardCheck size') :
    size = size' := (UInt32.xor_left_inj _).mp h

/-- The number that was replaced stands beside the other, and what is behind them is as it was. -/
theorem Corrupts.fields {wire corrupted routing body : Bytes}
    (hwire : Layout.standard.encodeMessage routing body = .ok wire) (h : Corrupts wire corrupted) :
    ∃ payload check n tail, n ≤ Layout.maxRouting ∧ check ≠ Layout.standardCheck payload
      ∧ corrupted = Layout.standardFields payload check n ++ tail := by
  obtain ⟨hrouting, hbody⟩ := Layout.lengths_of_encodeMessage hwire
  rw [Layout.encodeMessage_standard hrouting hbody] at hwire
  cases hwire
  obtain ⟨size, hsize⟩ : ∃ size, UInt32.ofNat body.length = size := ⟨_, rfl⟩
  obtain ⟨front, hfront⟩ : ∃ front, littleEndian 4 size.toNat = front := ⟨_, rfl⟩
  obtain ⟨middle, hmiddle⟩ : ∃ middle, littleEndian 4 (Layout.standardCheck size).toNat = middle := ⟨_, rfl⟩
  have hlenFront : front.length = 4 := hfront ▸ length_littleEndian _ _
  have hlenMiddle : middle.length = 4 := hmiddle ▸ length_littleEndian _ _
  have hwire : Layout.standardWire routing body
      = front ++ (middle ++ (littleEndian 2 routing.length ++ (routing ++ body))) := by
    simp only [Layout.standardWire, Layout.standardFields, hsize, hfront, hmiddle, List.append_assoc]
  rw [hwire] at h
  cases h with
  | @payload field length other =>
    obtain ⟨size', hfield⟩ := exists_littleEndian_eq length
    refine ⟨size', Layout.standardCheck size, routing.length, routing ++ body, hrouting, fun hsame => ?_, ?_⟩
    · rw [List.take_left' hlenFront, ← hfront, ← hfield, Layout.standardCheck_inj hsame] at other
      exact other rfl
    · rw [List.drop_left' hlenFront, Layout.standardFields, hfield, hmiddle]
      simp only [List.append_assoc]
  | @check field length other =>
    obtain ⟨check, hfield⟩ := exists_littleEndian_eq length
    have hbehind : (front ++ (middle ++ (littleEndian 2 routing.length ++ (routing ++ body)))).drop 8
        = littleEndian 2 routing.length ++ (routing ++ body) := by
      rw [← List.append_assoc, List.drop_left' (by rw [List.length_append, hlenFront, hlenMiddle])]
    refine ⟨size, check, routing.length, routing ++ body, hrouting, fun hsame => ?_, ?_⟩
    · rw [List.drop_left' hlenFront, List.take_left' hlenMiddle, ← hmiddle, ← hfield, hsame] at other
      exact other rfl
    · rw [List.take_left' hlenFront, hbehind, Layout.standardFields, hfront, hfield]
      simp only [List.append_assoc]

/-! ### What the decoder makes of it -/

namespace Framing

open Layout (standardFields standardCheck standardMinimum maxRouting)

variable {ceiling n : Nat} {payload check : UInt32} {remote : String} {before : List Dispatch} {tail w : Bytes}

theorem measure_of_mismatch (hn : n ≤ maxRouting) (hcheck : check ≠ standardCheck payload) (tail : Bytes) :
    (Framing.mk .standard ceiling).measure (standardFields payload check n ++ tail)
      = .error (.checkMismatch payload check (standardCheck payload)) := by
  have hsizes : Layout.standard.sizes? (standardFields payload check n ++ tail)
      = some ⟨payload, check, .ofNat (standardMinimum + n)⟩ := Layout.standardSizes?_fields_append hn tail
  rw [measure, hsizes]
  exact if_pos hcheck

/-- Behind messages that fit, the decoder sees what it would see at the front. -/
theorem decodeAll_wires_append (remote : String) (hfits : ∀ d ∈ before, d.Fits ceiling) (more : Bytes) :
    (Framing.mk .standard ceiling).decodeAll remote (before.flatMap (·.wire) ++ more)
      = ((Framing.mk .standard ceiling).decodeAll remote more).after
        (before.map fun d => .standard remote d.routing d.payload) := by
  have hwires := decodeAll_wires remote hfits
  rw [decodeAll_append (f := ⟨.standard, ceiling⟩) Layout.standard_lawful _ _ (by rw [hwires]), hwires,
    List.nil_append]

theorem decodeAll_of_mismatch (remote : String) (hfits : ∀ d ∈ before, d.Fits ceiling) (hn : n ≤ maxRouting)
    (hcheck : check ≠ standardCheck payload) (more : Bytes) :
    let u := (Framing.mk .standard ceiling).decodeAll remote
      (before.flatMap (·.wire) ++ (standardFields payload check n ++ more))
    u.messages = before.map (fun d => .standard remote d.routing d.payload)
      ∧ u.error? = some (.checkMismatch payload check (standardCheck payload)) := by
  have hdecode : (Framing.mk .standard ceiling).decode remote (standardFields payload check n ++ more) = .error _ :=
    decode_of_measure_error (measure_of_mismatch hn hcheck more)
  rw [decodeAll_wires_append remote hfits, decodeAll_of_error hdecode]
  exact ⟨List.append_nil _, rfl⟩

theorem error?_decodeAll_of_short (remote : String) (hfits : ∀ d ∈ before, d.Fits ceiling) {more : Bytes}
    (hpart : w <+: before.flatMap (·.wire) ++ more)
    (hshort : w.length < (before.flatMap (·.wire)).length + standardMinimum) :
    ((Framing.mk .standard ceiling).decodeAll remote w).error? = none := by
  have hl : Layout.standard.Lawful := Layout.standard_lawful
  have hnone : (Framing.mk .standard ceiling).measure (more.take 9) = .ok none := by
    refine (measure_eq_none_iff (f := ⟨.standard, ceiling⟩) hl _).mpr ?_
    exact Nat.lt_of_le_of_lt (List.length_take_le _ _) (show 9 < standardMinimum by decide)
  obtain ⟨rest, hrest⟩ : w <+: before.flatMap (·.wire) ++ more.take 9 := by
    rw [standardMinimum] at hshort
    have htake : (before.flatMap (·.wire) ++ more).take ((before.flatMap (·.wire)).length + 9)
        = before.flatMap (·.wire) ++ more.take 9 := List.take_length_add_append 9
    rw [← htake]
    exact List.prefix_take_iff.mpr ⟨hpart, by omega⟩
  cases herror : ((Framing.mk .standard ceiling).decodeAll remote w).error? with
  | none => rfl
  | some e =>
    -- An error would still be there with nine bytes of the envelope.
    have hmore := (decodeAll_append_of_error (f := ⟨.standard, ceiling⟩) hl w rest herror).2
    rw [hrest, decodeAll_wires_append remote hfits, decodeAll_of_none (decode_of_measure_none hnone)] at hmore
    cases hmore

end Framing

/-! ### Receives, one after the other -/

namespace Assembler

variable {a : Assembler} {capacity : Nat} {held : Bytes}

theorem Keeping.receiveAt_nil (h : a.Keeping capacity held) {offset : Nat} (hfits : offset ≤ capacity) :
    (a.receiveAt offset []).assembler = a ∧ Intake.messages (a.receiveAt offset []).events = [] := by
  obtain ⟨scratch, hstorage, rfl⟩ := h.storage
  have hload : a.load offset [] = .ok a := by
    rw [load, Assembler.scratch, hstorage]
    simp only [Except.map, Scratch.put, List.take_nil, ← hstorage]
  have hprocess : a.receiveAt offset [] = a.processAt offset 0 := by
    rw [Assembler.receiveAt, hload]
    rfl
  rw [hprocess, processAt_zero hstorage hfits]
  split
  · exact ⟨rfl, messages_heard a [.progress .cleared]⟩
  · exact ⟨rfl, rfl⟩

theorem Holding.receiveAt_of_clean (h : a.Holding capacity held) {offset : Nat} {data : Bytes}
    (hfits : offset + data.length ≤ capacity)
    (hclean : (a.framing.decodeAll a.remote (held ++ data)).error? = none) :
    let r := a.receiveAt offset data
    let u := a.framing.decodeAll a.remote (held ++ data)
    r.assembler.framing = a.framing ∧ r.assembler.remote = a.remote ∧ r.assembler.Holding capacity u.rest
      ∧ Intake.messages r.events = u.messages := by
  by_cases hne : data = []
  · subst hne
    obtain ⟨hsame, hmessages⟩ := h.receiveAt_nil hfits
    rw [List.append_nil, Framing.decodeAll_of_none h.incomplete]
    intro r u
    rw [show r.assembler = a from hsame]
    exact ⟨rfl, rfl, h, hmessages⟩
  · obtain ⟨-, hmessages, hframing, hremote, hholding⟩ := h.receiveAt hne hfits
    exact ⟨hframing, hremote, hholding hclean, hmessages⟩

/-- For as long as the decoder finds no error, receives give out what it takes off, and leave what it leaves. -/
theorem Holding.receives (h : a.Holding capacity held) (receives : List (Nat × Bytes))
    (hfits : ∀ r ∈ receives, r.1 + r.2.length ≤ capacity)
    (hclean : (a.framing.decodeAll a.remote (held ++ receives.flatMap (·.2))).error? = none) :
    let u := a.framing.decodeAll a.remote (held ++ receives.flatMap (·.2))
    let calls := receives.flatMap Operation.receiving
    (a.after calls).framing = a.framing ∧ (a.after calls).remote = a.remote
      ∧ (a.after calls).Holding capacity u.rest ∧ Intake.messages (a.log calls) = u.messages := by
  induction receives generalizing a held with
  | nil =>
    rw [List.flatMap_nil, List.append_nil, Framing.decodeAll_of_none h.incomplete]
    exact ⟨rfl, rfl, h, rfl⟩
  | cons receive rest ih =>
    obtain ⟨offset, data⟩ := receive
    rw [List.flatMap_cons, ← List.append_assoc] at hclean ⊢
    have hfirst : (a.framing.decodeAll a.remote (held ++ data)).error? = none := by
      cases herror : (a.framing.decodeAll a.remote (held ++ data)).error? with
      | none => rfl
      | some e =>
        rw [(Framing.decodeAll_append_of_error h.lawful _ _ herror).2] at hclean
        cases hclean
    obtain ⟨hframing, hremote, hholding, hmessages⟩ := h.receiveAt_of_clean (hfits _ List.mem_cons_self) hfirst
    obtain ⟨hafter, hlog⟩ := a.receiveAt_eq_perform (offset, data) (rest.flatMap Operation.receiving)
    rw [Framing.decodeAll_append h.lawful _ _ hfirst] at hclean ⊢
    have hlater := ih hholding (fun r hr => hfits r (List.mem_cons_of_mem _ hr))
      (by rw [hframing, hremote]; exact hclean)
    rw [hframing, hremote, hafter] at hlater
    obtain ⟨hframing', hremote', hholding', hmessages'⟩ := hlater
    refine ⟨hframing', hremote', hholding', ?_⟩
    rw [List.flatMap_cons, hlog, Intake.messages_append, hmessages, hafter, hmessages']
    rfl

/-- The receive behind them has the decoder's result, and gives out the messages that were not given out before. -/
theorem Holding.receiveAt_after (h : a.Holding capacity []) (receives : List (Nat × Bytes))
    (hfits : ∀ r ∈ receives, r.1 + r.2.length ≤ capacity)
    (hclean : (a.framing.decodeAll a.remote (receives.flatMap (·.2))).error? = none) {offset : Nat} {data : Bytes}
    (hne : data ≠ []) (hroom : offset + data.length ≤ capacity) :
    let calls := receives.flatMap Operation.receiving
    let r := (a.after calls).receiveAt offset data
    let u := a.framing.decodeAll a.remote (receives.flatMap (·.2) ++ data)
    r.result = u.result ∧ Intake.messages (a.log calls) ++ Intake.messages r.events = u.messages := by
  obtain ⟨hframing, hremote, hholding, hlog⟩ := h.receives receives hfits (by rwa [List.nil_append])
  rw [List.nil_append] at hholding hlog
  obtain ⟨hresult, hmessages, -⟩ := hholding.receiveAt hne hroom
  rw [hframing, hremote] at hresult hmessages
  rw [Framing.decodeAll_append h.lawful _ data hclean]
  refine ⟨hresult, ?_⟩
  rw [hlog, hmessages]
  rfl

theorem exists_receive_of_lt (receives : List (Nat × Bytes)) {n : Nat} (h : n < (receives.flatMap (·.2)).length) :
    ∃ earlier offset data later, receives = earlier ++ (offset, data) :: later
      ∧ (earlier.flatMap (·.2)).length ≤ n ∧ n < (earlier.flatMap (·.2)).length + data.length := by
  induction receives generalizing n with
  | nil => exact absurd h (Nat.not_lt_zero n)
  | cons receive rest ih =>
    obtain ⟨offset, data⟩ := receive
    have hlen (receives : List (Nat × Bytes)) : (((offset, data) :: receives).flatMap (·.2)).length
        = data.length + (receives.flatMap (·.2)).length := List.length_append
    rw [hlen] at h
    by_cases hhere : n < data.length
    · exact ⟨[], offset, data, rest, rfl, Nat.zero_le n, (Nat.zero_add data.length).symm ▸ hhere⟩
    · obtain ⟨earlier, offset', data', later, rfl, hle, hlt⟩ := ih (n := n - data.length) (by omega)
      refine ⟨(offset, data) :: earlier, offset', data', later, rfl, ?_, ?_⟩
      all_goals
        rw [hlen]
        omega

/-- If the decoder finds an error with the byte at some position, the receive that brings it is refused, and none before
but empty ones. -/
theorem Holding.refused_at (h : a.Holding capacity []) {receives : List (Nat × Bytes)} {stream : Bytes}
    {messages : List Message} {e : MessageError} (position : Nat) (hcut : receives.flatMap (·.2) = stream)
    (hfits : ∀ r ∈ receives, r.1 + r.2.length ≤ capacity) (hpos : 0 < position)
    (hposition : position ≤ stream.length)
    (hclean : ∀ w, w <+: stream → w.length < position → (a.framing.decodeAll a.remote w).error? = none)
    (herror : ∀ w, w <+: stream → position ≤ w.length →
      (a.framing.decodeAll a.remote w).messages = messages ∧ (a.framing.decodeAll a.remote w).error? = some e) :
    ∃ (earlier later : List (Nat × Bytes)) (offset : Nat) (data : Bytes),
      receives = earlier ++ (offset, data) :: later
      ∧ (earlier.flatMap (·.2)).length < position ∧ position ≤ (earlier.flatMap (·.2)).length + data.length
      ∧ (∀ (front back : List (Nat × Bytes)) (receive : Nat × Bytes), earlier = front ++ receive :: back →
        receive.2 ≠ [] →
        ((a.after (front.flatMap Operation.receiving)).receiveAt receive.1 receive.2).result = .ok ())
      ∧ let calls := earlier.flatMap Operation.receiving
        let r := (a.after calls).receiveAt offset data
        r.result = .error e ∧ Intake.messages (a.log calls) ++ Intake.messages r.events = messages := by
  obtain ⟨earlier, offset, data, later, rfl, hle, hlt⟩ :=
    exists_receive_of_lt receives (n := position - 1) (by rw [hcut]; omega)
  have hearlier : ∀ r ∈ earlier, r.1 + r.2.length ≤ capacity := fun r hr => hfits r (List.mem_append_left _ hr)
  have hwhole : earlier.flatMap (·.2) ++ data <+: stream := by
    rw [← hcut, List.flatMap_append, List.flatMap_cons, ← List.append_assoc]
    exact List.prefix_append _ _
  have hbegun : earlier.flatMap (·.2) <+: stream := (List.prefix_append _ _).trans hwhole
  refine ⟨earlier, later, offset, data, rfl, by omega, by omega, ?_, ?_⟩
  · -- An earlier receive ends short of the position, where the decoder finds no error yet.
    rintro front back receive rfl hne
    rw [List.flatMap_append, List.flatMap_cons, ← List.append_assoc] at hle hbegun
    simp only [List.length_append] at hle
    have hpart : front.flatMap (·.2) ++ receive.2 <+: stream := (List.prefix_append _ _).trans hbegun
    obtain ⟨hresult, -⟩ := h.receiveAt_after front (fun r hr => hearlier r (List.mem_append_left _ hr))
      (hclean _ ((List.prefix_append _ _).trans hpart) (by omega)) hne (hearlier receive (by simp))
    rw [hresult, Framing.Unframed.result, hclean _ hpart (by rw [List.length_append]; omega)]
  · have hne : data ≠ [] := List.length_pos_iff.mp (by omega)
    obtain ⟨hresult, hmessages⟩ := h.receiveAt_after earlier hearlier (hclean _ hbegun (by omega)) hne
      (hfits (offset, data) (by simp))
    obtain ⟨hgiven, herror⟩ := herror _ hwhole (by rw [List.length_append]; omega)
    refine ⟨?_, hmessages.trans hgiven⟩
    rw [hresult, Framing.Unframed.result, herror]

theorem state_of_mismatch {offset : Nat} {data : Bytes} {payload check expected : UInt32}
    (h : (a.receiveAt offset data).result = .error (.checkMismatch payload check expected)) :
    (a.receiveAt offset data).assembler.state = .idle := by
  have hrejection : Rejection (.checkMismatch payload check expected) := .checkMismatch _ _ _
  unfold receiveAt at h ⊢
  cases hload : a.load offset data with
  | error e =>
    simp only [hload, Except.error.injEq] at h
    exact absurd (scratch_of_load_error (h ▸ hload)) (hrejection.not_scratch a)
  | ok a' =>
    simp only [hload] at h
    obtain ⟨hidle, scratch, hstorage⟩ := waits_of_processAt hrejection h
    simp only [state, hidle, hstorage]

/-- **A corrupted size is always noticed**, with the last byte of the fixed part. The messages in front are given out,
however the bytes are cut. -/
theorem corrupted_size_is_refused (a : Assembler) (scratch : Scratch) (before : List Dispatch) (d : Dispatch)
    (wire corrupted behind : Bytes) (receives : List (Nat × Bytes)) (hlayout : a.layout = .standard)
    (hpartial : a.settings.allowPartial = true) (hstorage : a.storage = .ready scratch) (hidle : a.pending = .idle)
    (hbefore : ∀ d ∈ before, d.Fits a.settings.maxMessageSize)
    (hwire : Layout.standard.encodeMessage d.routing d.payload = .ok wire) (hcorrupts : Corrupts wire corrupted)
    (hcut : receives.flatMap (·.2) = before.flatMap (·.wire) ++ corrupted ++ behind)
    (hfits : ∀ r ∈ receives, r.1 + r.2.length ≤ scratch.capacity) :
    ∃ (earlier later : List (Nat × Bytes)) (offset : Nat) (data : Bytes) (payload check : UInt32),
      receives = earlier ++ (offset, data) :: later
      ∧ (earlier.flatMap (·.2)).length < (before.flatMap (·.wire)).length + 10
      ∧ (before.flatMap (·.wire)).length + 10 ≤ (earlier.flatMap (·.2)).length + data.length
      ∧ corrupted.take 8 = littleEndian 4 payload.toNat ++ littleEndian 4 check.toNat
      ∧ (∀ (front back : List (Nat × Bytes)) (receive : Nat × Bytes), earlier = front ++ receive :: back →
        receive.2 ≠ [] →
        ((a.after (front.flatMap Operation.receiving)).receiveAt receive.1 receive.2).result = .ok ())
      ∧ let calls := earlier.flatMap Operation.receiving
        let r := (a.after calls).receiveAt offset data
        r.result = .error (.checkMismatch payload check (Layout.standardCheck payload))
          ∧ Intake.messages (a.log calls) ++ Intake.messages r.events
            = before.map (fun d => .standard a.remote d.routing d.payload)
          ∧ r.assembler.state = .idle := by
  obtain ⟨payload, check, n, tail, hn, hmismatch, rfl⟩ := hcorrupts.fields hwire
  have hlenFields : (Layout.standardFields payload check n).length = 10 := Layout.length_standardFields
  have hframing : a.framing = ⟨.standard, a.settings.maxMessageSize⟩ := by rw [framing, hlayout]
  rw [List.append_assoc, List.append_assoc] at hcut
  have herror : ∀ w, w <+: before.flatMap (·.wire) ++ (Layout.standardFields payload check n ++ (tail ++ behind)) →
      (before.flatMap (·.wire)).length + 10 ≤ w.length →
      (a.framing.decodeAll a.remote w).messages = before.map (fun d => .standard a.remote d.routing d.payload)
        ∧ (a.framing.decodeAll a.remote w).error?
          = some (.checkMismatch payload check (Layout.standardCheck payload)) := by
    intro w hpart hlong
    have hfront : before.flatMap (·.wire) ++ Layout.standardFields payload check n <+: w := by
      refine List.prefix_of_prefix_length_le ?_ hpart (by rw [List.length_append]; omega)
      rw [← List.append_assoc]
      exact List.prefix_append _ _
    obtain ⟨more, rfl⟩ := hfront
    rw [hframing, List.append_assoc]
    exact Framing.decodeAll_of_mismatch a.remote hbefore hn hmismatch more
  obtain ⟨earlier, later, offset, data, hsplit, hbegun, hended, hclean, hresult, hmessages⟩ :=
    (holding_of_idle hlayout hpartial hstorage hidle).refused_at
      ((before.flatMap (·.wire)).length + 10) hcut hfits (by omega)
      (by simp only [List.length_append]; omega)
      (fun w hpart hshort => hframing ▸ Framing.error?_decodeAll_of_short a.remote hbefore hpart hshort) herror
  refine ⟨earlier, later, offset, data, payload, check, hsplit, hbegun, hended, ?_, hclean, hresult, hmessages,
    state_of_mismatch hresult⟩
  rw [Layout.standardFields, ← List.append_assoc, List.append_assoc, List.take_left' (by simp)]

/-- A payload size of four bytes of ones behind a message, cut inside the other field, with an empty receive before. -/
theorem corrupted_size_is_refused_of_ones :
    let a := ofSettings .standard "peer" { scratchCapacity := 16 }
    let before : List Dispatch := [⟨[], [7]⟩]
    let wire : Bytes := [1, 0, 0, 0, 0xa4, 0xa5, 0xa5, 0xa5, 1, 0, 5, 9]
    let corrupted : Bytes := [0xff, 0xff, 0xff, 0xff, 0xa4, 0xa5, 0xa5, 0xa5, 1, 0, 5, 9]
    let receives : List (Nat × Bytes) :=
      [(0, []), (5, [1, 0, 0, 0, 0xa4, 0xa5, 0xa5, 0xa5, 0, 0]), (0, [7, 0xff, 0xff, 0xff, 0xff, 0xa4]),
        (2, [0xa5, 0xa5, 0xa5, 1, 0, 5, 9, 3])]
    (∀ d ∈ before, d.Fits a.settings.maxMessageSize) ∧ Layout.standard.encodeMessage [5] [9] = .ok wire
      ∧ Corrupts wire corrupted ∧ receives.flatMap (·.2) = before.flatMap (·.wire) ++ corrupted ++ [3]
      ∧ (∀ r ∈ receives, r.1 + r.2.length ≤ 16)
      ∧ ∃ (earlier later : List (Nat × Bytes)) (offset : Nat) (data : Bytes) (payload check : UInt32),
        receives = earlier ++ (offset, data) :: later
        ∧ (earlier.flatMap (·.2)).length < 21 ∧ 21 ≤ (earlier.flatMap (·.2)).length + data.length
        ∧ [0xff, 0xff, 0xff, 0xff, 0xa4, 0xa5, 0xa5, 0xa5] = littleEndian 4 payload.toNat
          ++ littleEndian 4 check.toNat
        ∧ let calls := earlier.flatMap Operation.receiving
          let r := (a.after calls).receiveAt offset data
          r.result = .error (.checkMismatch payload check (Layout.standardCheck payload))
            ∧ Intake.messages (a.log calls) ++ Intake.messages r.events = [.standard "peer" [] [7]]
            ∧ r.assembler.state = .idle := by
  intro a before wire corrupted receives
  have hbefore : ∀ d ∈ before, d.Fits a.settings.maxMessageSize := by
    intro d hd
    obtain rfl := List.mem_singleton.mp hd
    exact ⟨by decide, by decide⟩
  have hwire : Layout.standard.encodeMessage [5] [9] = .ok wire := rfl
  have hcorrupts : Corrupts wire corrupted := @Corrupts.payload wire [0xff, 0xff, 0xff, 0xff] rfl (by decide)
  have hfits : ∀ r ∈ receives, r.1 + r.2.length ≤ 16 := by decide
  obtain ⟨earlier, later, offset, data, payload, check, hsplit, hbegun, hended, hfields, -, hrefused⟩ :=
    corrupted_size_is_refused a { capacity := 16 } before ⟨[5], [9]⟩ wire corrupted [3] receives rfl rfl rfl rfl
      hbefore hwire hcorrupts rfl hfits
  exact ⟨hbefore, hwire, hcorrupts, rfl, hfits, earlier, later, offset, data, payload, check, hsplit, hbegun, hended,
    hfields, hrefused⟩

end Assembler

end MessageWire
