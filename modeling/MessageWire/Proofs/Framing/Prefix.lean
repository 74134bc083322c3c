import MessageWire.Message.Basic
/-!
# What the front of a byte string decides

A layout is lawful if its first `minimum` bytes tell the sizes, whatever follows them, and are part of the
envelope. Nothing else here asks more of a layout. With a lawful one, the first message of a byte string and
the error at its front stay the same when more bytes come (`Framing.decode_append_of_some`,
`Framing.decode_append_of_error`), so taking messages off can be cut anywhere (`Framing.decodeAll_append`).
It stops where the decoder does (`Framing.decode_rest_decodeAll`).
-/

namespace MessageWire

variable {f : Framing} {remote : String}

/-! ### Lawful layouts -/

/-- The first `minimum` bytes tell the sizes and are part of the envelope. -/
structure Layout.Lawful (l : Layout) : Prop where
  minimum_pos : 0 < l.minimum
  sizes?_eq_none_iff : ∀ w, l.sizes? w = none ↔ w.length < l.minimum
  sizes?_append : ∀ w more, l.minimum ≤ w.length → l.sizes? (w ++ more) = l.sizes? w
  minimum_le_overhead : ∀ w sizes, l.sizes? w = some sizes → l.minimum ≤ sizes.overhead.toNat

theorem Layout.standardSizes?_append (w more : Bytes) (h : standardMinimum ≤ w.length) :
    standardSizes? (w ++ more) = standardSizes? w := by
  have hlen : 10 ≤ w.length := h
  have hreach : reaches standardMinimum w = true := (reaches_iff _ _).mpr h
  have hreach' : reaches standardMinimum (w ++ more) = true := by
    rw [reaches_iff, List.length_append]
    omega
  have hpayload : (w ++ more).take 4 = w.take 4 := List.take_append_of_le_length (by omega)
  have hcheck : ((w ++ more).drop 4).take 4 = (w.drop 4).take 4 := by
    rw [List.drop_append_of_le_length (by omega), List.take_append_of_le_length (by rw [List.length_drop]; omega)]
  have hrouting : ((w ++ more).drop 8).take 2 = (w.drop 8).take 2 := by
    rw [List.drop_append_of_le_length (by omega), List.take_append_of_le_length (by rw [List.length_drop]; omega)]
  unfold standardSizes?
  rw [if_pos hreach, if_pos hreach', hpayload, hcheck, hrouting]

theorem ofLittleEndian_lt_of_length_le {width : Nat} {w : Bytes} (h : w.length ≤ width) :
    ofLittleEndian w < 1 <<< (8 * width) := by
  apply Nat.lt_of_lt_of_le (ofLittleEndian_lt w)
  rw [Nat.one_shiftLeft, Nat.one_shiftLeft]
  exact Nat.pow_le_pow_right (by decide) (Nat.mul_le_mul_left 8 h)

/-- The length of the routing is told in two bytes, so the envelope's own size never wraps. -/
theorem Layout.toNat_overhead {n : Nat} (h : n ≤ maxRouting) :
    (UInt32.ofNat (standardMinimum + n)).toNat = standardMinimum + n := by
  have hlt : standardMinimum + n < 2 ^ 32 := by
    unfold maxRouting at h
    unfold standardMinimum
    omega
  rw [UInt32.toNat_ofNat', Nat.mod_eq_of_lt hlt]

theorem Layout.minimum_le_overhead_standard (w : Bytes) (sizes : Sizes)
    (h : standardSizes? w = some sizes) : standardMinimum ≤ sizes.overhead.toNat := by
  unfold standardSizes? at h
  split at h
  · obtain rfl := Option.some.inj h
    have hrouting := ofLittleEndian_lt_of_length_le (List.length_take_le 2 (w.drop 8))
    rw [toNat_overhead (Nat.le_of_lt_succ hrouting)]
    exact Nat.le_add_right _ _
  · contradiction

theorem Layout.standard_lawful : standard.Lawful where
  minimum_pos := by decide
  sizes?_eq_none_iff w := by
    change standardSizes? w = none ↔ w.length < standardMinimum
    have hreach := reaches_iff standardMinimum w
    unfold standardSizes?
    split
    case isTrue h => simp [hreach.mp h]
    case isFalse h => simpa [hreach] using h
  sizes?_append := standardSizes?_append
  minimum_le_overhead := minimum_le_overhead_standard

/-! ### Measuring -/

namespace Framing

theorem measure_eq_none_iff_sizes? (w : Bytes) : f.measure w = .ok none ↔ f.layout.sizes? w = none := by
  unfold measure
  cases hsizes : f.layout.sizes? w with
  | none => simp
  | some sizes =>
    simp only [reduceCtorEq, iff_false]
    repeat' split
    all_goals simp

theorem measure_congr {w w' : Bytes} (h : f.layout.sizes? w = f.layout.sizes? w') : f.measure w = f.measure w' := by
  unfold measure
  rw [h]

theorem measure_eq_none_iff (hl : f.layout.Lawful) (w : Bytes) :
    f.measure w = .ok none ↔ w.length < f.layout.minimum := by
  rw [← hl.sizes?_eq_none_iff, measure_eq_none_iff_sizes?]

/-- What is measured is what the sizes say, and the check and both limits have been passed. -/
theorem measure_eq_some {w : Bytes} {sizes : Sizes} {total : Nat}
    (h : f.measure w = .ok (some (sizes, total))) :
    f.layout.sizes? w = some sizes ∧ total = sizes.total ∧ sizes.check = f.layout.check sizes.payload ∧
      total < 0x100000000 ∧ total ≤ f.ceiling := by
  unfold measure at h
  cases hsizes : f.layout.sizes? w with
  | none => simp [hsizes] at h
  | some found =>
    simp only [hsizes] at h
    split at h
    · simp at h
    · split at h
      · simp at h
      · split at h
        · simp at h
        · simp only [Except.ok.injEq, Option.some.injEq, Prod.mk.injEq] at h
          obtain ⟨rfl, rfl⟩ := h
          refine ⟨rfl, rfl, ?_, ?_, ?_⟩
          · simp_all
          · omega
          · omega

theorem measure_of_sizes? {w : Bytes} {sizes : Sizes} (hsizes : f.layout.sizes? w = some sizes)
    (hcheck : sizes.check = f.layout.check sizes.payload) (hlt : sizes.total < 0x100000000)
    (hle : sizes.total ≤ f.ceiling) : f.measure w = .ok (some (sizes, sizes.total)) := by
  rw [measure, hsizes]
  simp only [hcheck, ne_eq, not_true_eq_false, if_false]
  rw [if_neg (by omega), if_neg (by omega)]

/-- The causes for which the front of a byte string is no message. -/
theorem measure_eq_error {w : Bytes} {e : MessageError} (h : f.measure w = .error e) :
    (∃ payload check expected, e = .checkMismatch payload check expected)
      ∨ (∃ payload overhead, e = .overflow payload overhead) ∨ ∃ size, e = .oversized size f.ceiling := by
  unfold measure at h
  cases hsizes : f.layout.sizes? w with
  | none => simp [hsizes] at h
  | some sizes =>
    simp only [hsizes] at h
    split at h
    · cases h
      exact .inl ⟨_, _, _, rfl⟩
    · split at h
      · cases h
        exact .inr (.inl ⟨_, _, rfl⟩)
      · split at h
        · cases h
          exact .inr (.inr ⟨_, rfl⟩)
        · cases h

theorem measure_append (hl : f.layout.Lawful) (w more : Bytes) (h : f.layout.minimum ≤ w.length) :
    f.measure (w ++ more) = f.measure w := measure_congr (hl.sizes?_append w more h)

theorem measure_append_of_ne_none (hl : f.layout.Lawful) (w more : Bytes) (h : f.measure w ≠ .ok none) :
    f.measure (w ++ more) = f.measure w := by
  apply measure_append hl
  rw [ne_eq, measure_eq_none_iff hl] at h
  omega

theorem overhead_le_of_measure {w : Bytes} {sizes : Sizes} {total : Nat}
    (h : f.measure w = .ok (some (sizes, total))) : sizes.overhead.toNat ≤ total := by
  obtain ⟨-, rfl, -⟩ := measure_eq_some h
  exact Nat.le_add_right _ _

/-- A message is no shorter than its envelope, and that no shorter than its fixed part. -/
theorem bounds_of_measure (hl : f.layout.Lawful) {w : Bytes} {sizes : Sizes} {total : Nat}
    (h : f.measure w = .ok (some (sizes, total))) :
    f.layout.minimum ≤ w.length ∧ f.layout.minimum ≤ sizes.overhead.toNat ∧ sizes.overhead.toNat ≤ total := by
  refine ⟨?_, hl.minimum_le_overhead w sizes (measure_eq_some h).1, overhead_le_of_measure h⟩
  have hnone := measure_eq_none_iff (f := f) hl w
  rw [h] at hnone
  simp only [Except.ok.injEq, reduceCtorEq, false_iff] at hnone
  omega

theorem envelope_append (sizes : Sizes) (w more : Bytes) (h : sizes.overhead.toNat ≤ w.length) :
    f.envelope sizes (w ++ more) remote = f.envelope sizes w remote := by
  rw [envelope, envelope, List.take_append_of_le_length h]

/-! ### Decoding one message -/

theorem decode_of_measure_error {w : Bytes} {e : MessageError} (h : f.measure w = .error e) :
    f.decode remote w = .error e := by
  rw [decode, h]

theorem decode_of_measure_none {w : Bytes} (h : f.measure w = .ok none) : f.decode remote w = .ok none := by
  rw [decode, h]

theorem decode_of_measure_some {w : Bytes} {sizes : Sizes} {total : Nat}
    (h : f.measure w = .ok (some (sizes, total))) :
    f.decode remote w =
      if total ≤ w.length then
        .ok (some (⟨f.envelope sizes w remote, (w.take total).drop sizes.overhead.toNat⟩, w.drop total))
      else .ok none := by
  rw [decode, h]
  simp only [reaches_iff]

theorem measure_of_decode_error {w : Bytes} {e : MessageError} (h : f.decode remote w = .error e) :
    f.measure w = .error e := by
  match hmeasure : f.measure w with
  | .error e' =>
    rw [decode_of_measure_error hmeasure] at h
    exact congrArg _ (Except.error.inj h)
  | .ok none => simp [decode_of_measure_none hmeasure] at h
  | .ok (some (sizes, total)) =>
    rw [decode_of_measure_some hmeasure] at h
    split at h <;> simp at h

theorem decode_eq_some {w rest : Bytes} {m : Message} (h : f.decode remote w = .ok (some (m, rest))) :
    ∃ sizes total, f.measure w = .ok (some (sizes, total)) ∧ total ≤ w.length ∧
      m = ⟨f.envelope sizes w remote, (w.take total).drop sizes.overhead.toNat⟩ ∧ rest = w.drop total := by
  match hmeasure : f.measure w with
  | .error e => simp [decode_of_measure_error hmeasure] at h
  | .ok none => simp [decode_of_measure_none hmeasure] at h
  | .ok (some (sizes, total)) =>
    rw [decode_of_measure_some hmeasure] at h
    split at h
    case isTrue hle =>
      simp only [Except.ok.injEq, Option.some.injEq, Prod.mk.injEq] at h
      exact ⟨sizes, total, rfl, hle, h.1.symm, h.2.symm⟩
    case isFalse => simp at h

/-- The decoder wants more bytes either for the sizes or, once these are told, for the message. -/
theorem decode_eq_none {w : Bytes} (h : f.decode remote w = .ok none) :
    f.measure w = .ok none ∨
      ∃ sizes total, f.measure w = .ok (some (sizes, total)) ∧ w.length < total := by
  match hmeasure : f.measure w with
  | .error e => simp [decode_of_measure_error hmeasure] at h
  | .ok none => exact .inl rfl
  | .ok (some (sizes, total)) =>
    refine .inr ⟨sizes, total, rfl, ?_⟩
    rw [decode_of_measure_some hmeasure] at h
    split at h
    · simp at h
    · omega

theorem decode_nil (hl : f.layout.Lawful) : f.decode remote [] = .ok none :=
  decode_of_measure_none ((measure_eq_none_iff hl []).mpr hl.minimum_pos)

theorem readEnvelope_nil (hl : f.layout.Lawful) : f.readEnvelope [] remote = .ok none := by
  rw [readEnvelope, (measure_eq_none_iff hl []).mpr hl.minimum_pos]

theorem decode_append_of_error (hl : f.layout.Lawful) {w : Bytes} {e : MessageError} (more : Bytes)
    (h : f.decode remote w = .error e) : f.decode remote (w ++ more) = .error e := by
  have hmeasure := measure_of_decode_error h
  apply decode_of_measure_error
  rw [measure_append_of_ne_none hl w more (by simp [hmeasure]), hmeasure]

theorem decode_append_of_some (hl : f.layout.Lawful) {w rest : Bytes} {m : Message} (more : Bytes)
    (h : f.decode remote w = .ok (some (m, rest))) :
    f.decode remote (w ++ more) = .ok (some (m, rest ++ more)) := by
  obtain ⟨sizes, total, hmeasure, hle, rfl, rfl⟩ := decode_eq_some h
  have hoverhead := (bounds_of_measure hl hmeasure).2.2
  have hmeasure' := measure_append_of_ne_none hl w more (by simp [hmeasure])
  rw [decode_of_measure_some (hmeasure'.trans hmeasure), if_pos (by rw [List.length_append]; omega),
    envelope_append sizes w more (by omega), List.take_append_of_le_length hle,
    List.drop_append_of_le_length hle]

theorem length_lt_of_decode (hl : f.layout.Lawful) {w rest : Bytes} {m : Message}
    (h : f.decode remote w = .ok (some (m, rest))) : rest.length < w.length := by
  obtain ⟨sizes, total, hmeasure, hle, -, rfl⟩ := decode_eq_some h
  have hbounds := bounds_of_measure hl hmeasure
  have hpos := hl.minimum_pos
  rw [List.length_drop]
  omega

/-- A message for which more bytes were wanted is longer than those there were. -/
theorem length_lt_of_decode_append (hl : f.layout.Lawful) {held window rest : Bytes} {m : Message}
    (hheld : f.decode remote held = .ok none) (h : f.decode remote (held ++ window) = .ok (some (m, rest))) :
    held.length < m.envelope.total := by
  obtain ⟨sizes, total, hmeasure, hle, rfl, -⟩ := decode_eq_some h
  obtain rfl : total = sizes.total := (measure_eq_some hmeasure).2.1
  show held.length < sizes.total
  obtain hnone | ⟨sizes', total', hsome, hlt⟩ := decode_eq_none hheld
  · have hbounds := bounds_of_measure hl hmeasure
    have hshort := (measure_eq_none_iff hl held).mp hnone
    omega
  · rw [measure_append_of_ne_none hl held window (by simp [hsome]), hsome] at hmeasure
    simp only [Except.ok.injEq, Option.some.injEq, Prod.mk.injEq] at hmeasure
    omega

/-- So it ends behind the first of the bytes that were wanted. -/
theorem split_of_decode_append (hl : f.layout.Lawful) {held window rest : Bytes} {m : Message}
    (hheld : f.decode remote held = .ok none) (h : f.decode remote (held ++ window) = .ok (some (m, rest))) :
    ∃ taken, taken ≠ [] ∧ window = taken ++ rest := by
  have hlt := length_lt_of_decode_append hl hheld h
  obtain ⟨sizes, total, hmeasure, hle, rfl, rfl⟩ := decode_eq_some h
  obtain rfl : total = sizes.total := (measure_eq_some hmeasure).2.1
  change held.length < sizes.total at hlt
  refine ⟨window.take (sizes.total - held.length), fun hnil => ?_, ?_⟩
  · have hlen := congrArg List.length hnil
    rw [List.length_append] at hle
    rw [List.length_take, List.length_nil] at hlen
    omega
  · rw [List.drop_append, List.drop_of_length_le (Nat.le_of_lt hlt), List.nil_append, List.take_append_drop]

/-! ### Decoding all messages -/

/-- How taking messages off ended, as the result of an operation. -/
def Unframed.result (u : Unframed) : Except MessageError Unit :=
  match u.error? with
  | none => .ok ()
  | some e => .error e

def Unframed.after (before : List Message) (u : Unframed) : Unframed := { u with messages := before ++ u.messages }

theorem decodeAll_of_error {w : Bytes} {e : MessageError} (h : f.decode remote w = .error e) :
    f.decodeAll remote w = ⟨[], w, some e⟩ := by
  rw [decodeAll, h]

theorem decodeAll_of_none {w : Bytes} (h : f.decode remote w = .ok none) :
    f.decodeAll remote w = ⟨[], w, none⟩ := by
  rw [decodeAll, h]

theorem decodeAll_of_some (hl : f.layout.Lawful) {w rest : Bytes} {m : Message}
    (h : f.decode remote w = .ok (some (m, rest))) :
    f.decodeAll remote w = (f.decodeAll remote rest).after [m] := by
  rw [decodeAll, h]
  simp only [if_pos (length_lt_of_decode hl h)]
  rfl

theorem decode_induction (hl : f.layout.Lawful) (remote : String) {motive : Bytes → Prop}
    (error : ∀ w e, f.decode remote w = .error e → motive w)
    (none : ∀ w, f.decode remote w = .ok none → motive w)
    (some : ∀ w m rest, f.decode remote w = .ok (some (m, rest)) → motive rest → motive w)
    (w : Bytes) : motive w := by
  induction hlen : w.length using Nat.strongRecOn generalizing w with
  | _ n ih =>
    match hdecode : f.decode remote w with
    | .error e => exact error w e hdecode
    | .ok .none => exact none w hdecode
    | .ok (.some (m, rest)) =>
      have hlt := length_lt_of_decode hl hdecode
      exact some w m rest hdecode (ih rest.length (by omega) rest rfl)

/-- Taking messages off ends at bytes for which the decoder has the same end. -/
theorem decode_rest_decodeAll (hl : f.layout.Lawful) (remote : String) (w : Bytes) :
    f.decode remote (f.decodeAll remote w).rest =
      match (f.decodeAll remote w).error? with
      | none => .ok none
      | some e => .error e := by
  induction w using decode_induction hl remote with
  | error w e h => rw [decodeAll_of_error h, h]
  | none w h => rw [decodeAll_of_none h, h]
  | some w m rest h ih =>
    rw [decodeAll_of_some hl h]
    exact ih

/-- Messages may be taken off the front of a byte string before the rest of it comes. -/
theorem decodeAll_append (hl : f.layout.Lawful) (w more : Bytes)
    (h : (f.decodeAll remote w).error? = none) :
    f.decodeAll remote (w ++ more) =
      (f.decodeAll remote ((f.decodeAll remote w).rest ++ more)).after (f.decodeAll remote w).messages := by
  induction w using decode_induction hl remote with
  | error w e hdecode => simp [decodeAll_of_error hdecode] at h
  | none w hdecode => rw [decodeAll_of_none hdecode]; rfl
  | some w m rest hdecode ih =>
    rw [decodeAll_of_some hl hdecode] at h ⊢
    rw [decodeAll_of_some hl (decode_append_of_some hl more hdecode), ih h]
    rfl

/-- Nothing that comes later changes the messages in front of an error, or the error. -/
theorem decodeAll_append_of_error (hl : f.layout.Lawful) (w more : Bytes) {e : MessageError}
    (h : (f.decodeAll remote w).error? = some e) :
    (f.decodeAll remote (w ++ more)).messages = (f.decodeAll remote w).messages ∧
      (f.decodeAll remote (w ++ more)).error? = some e := by
  induction w using decode_induction hl remote with
  | error w e' hdecode =>
    rw [decodeAll_of_error hdecode] at h ⊢
    rw [decodeAll_of_error (decode_append_of_error hl more hdecode)]
    exact ⟨rfl, h⟩
  | none w hdecode => simp [decodeAll_of_none hdecode] at h
  | some w m rest hdecode ih =>
    rw [decodeAll_of_some hl hdecode] at h ⊢
    rw [decodeAll_of_some hl (decode_append_of_some hl more hdecode)]
    obtain ⟨hmessages, herror⟩ := ih h
    exact ⟨congrArg ([m] ++ ·) hmessages, herror⟩

end Framing

end MessageWire
