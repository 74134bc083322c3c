import MessageWire.Proofs.Framing.Prefix
/-!
# The standard format

A standard envelope is three numbers and the routing, and it is read where it was written: the numbers that the
decoder finds are those whose bytes are at the front (`Layout.eq_fields_of_standardSizes?`), and the encoder puts
nothing else there. So the decoder takes exactly the encodings of messages off a byte string, and a message that was
taken off is encoded to the bytes it came in.
-/

namespace MessageWire

variable {f : Framing} {remote : String}

/-! ### Numbers in bytes -/

theorem littleEndian_take {width : Nat} {w : Bytes} (h : width ≤ w.length) :
    littleEndian width (ofLittleEndian (w.take width)) = w.take width := by
  have hlen : (w.take width).length = width := by rw [List.length_take, Nat.min_eq_left h]
  have hback := littleEndian_ofLittleEndian (w.take width)
  rwa [hlen] at hback

theorem toNat_ofLittleEndian {w : Bytes} (h : w.length ≤ 4) :
    (UInt32.ofNat (ofLittleEndian w)).toNat = ofLittleEndian w := by
  have hlt : ofLittleEndian w < 2 ^ 32 := ofLittleEndian_lt_of_length_le h
  rw [UInt32.toNat_ofNat', Nat.mod_eq_of_lt hlt]

theorem ofNat_littleEndian_toNat (n : UInt32) :
    UInt32.ofNat (ofLittleEndian (littleEndian 4 n.toNat)) = n := by
  have hlt : n.toNat < 1 <<< (8 * 4) := n.toNat_lt
  rw [ofLittleEndian_littleEndian, Nat.mod_eq_of_lt hlt, UInt32.ofNat_toNat]

namespace Layout

/-! ### The fixed part -/

def standardFields (payload check : UInt32) (routing : Nat) : Bytes :=
  littleEndian 4 payload.toNat ++ (littleEndian 4 check.toNat ++ littleEndian 2 routing)

def standardSizes (payload : UInt32) (routing : Nat) : Sizes :=
  ⟨payload, standardCheck payload, .ofNat (standardMinimum + routing)⟩

variable {payload check : UInt32} {n : Nat}

@[simp] theorem length_standardFields : (standardFields payload check n).length = standardMinimum := by
  simp [standardFields, standardMinimum]

theorem total_standardSizes (h : n ≤ maxRouting) :
    (standardSizes payload n).total = standardMinimum + n + payload.toNat := by
  rw [Sizes.total, standardSizes, toNat_overhead h]

theorem standardSizes?_fields_append (h : n ≤ maxRouting) (tail : Bytes) :
    standardSizes? (standardFields payload check n ++ tail)
      = some ⟨payload, check, .ofNat (standardMinimum + n)⟩ := by
  have hreach : reaches standardMinimum (standardFields payload check n ++ tail) = true := by
    rw [reaches_iff, List.length_append, length_standardFields]
    exact Nat.le_add_right _ _
  have hpayload : (standardFields payload check n ++ tail).take 4 = littleEndian 4 payload.toNat := by
    rw [standardFields, List.append_assoc, List.take_left' (length_littleEndian _ _)]
  have hcheck : ((standardFields payload check n ++ tail).drop 4).take 4 = littleEndian 4 check.toNat := by
    rw [standardFields, List.append_assoc, List.drop_left' (length_littleEndian _ _), List.append_assoc,
      List.take_left' (length_littleEndian _ _)]
  have hrouting : ((standardFields payload check n ++ tail).drop 8).take 2 = littleEndian 2 n := by
    have hlen : (littleEndian 4 payload.toNat ++ littleEndian 4 check.toNat).length = 8 := by simp
    rw [standardFields, ← List.append_assoc, List.append_assoc, List.drop_left' hlen,
      List.take_left' (length_littleEndian _ _)]
  have hlt : n < 1 <<< (8 * 2) := by
    unfold maxRouting at h
    omega
  rw [standardSizes?, if_pos hreach, hpayload, hcheck, hrouting, ofNat_littleEndian_toNat,
    ofNat_littleEndian_toNat, ofLittleEndian_littleEndian, Nat.mod_eq_of_lt hlt]

/-- The sizes are told by no other bytes than those that tell them. -/
theorem eq_fields_of_standardSizes? {w : Bytes} {sizes : Sizes} (h : standardSizes? w = some sizes) :
    ∃ n tail, n ≤ maxRouting ∧ sizes.overhead = .ofNat (standardMinimum + n)
      ∧ w = standardFields sizes.payload sizes.check n ++ tail := by
  unfold standardSizes? at h
  split at h
  case isFalse => cases h
  case isTrue hreach =>
    obtain rfl := Option.some.inj h
    rw [reaches_iff, standardMinimum] at hreach
    have hrouting := ofLittleEndian_lt_of_length_le (List.length_take_le 2 (w.drop 8))
    have hback : (w.drop 8).take 2 ++ w.drop 10 = w.drop 8 := by
      have h := List.take_append_drop 2 (w.drop 8)
      rwa [List.drop_drop] at h
    have hmiddle : (w.drop 4).take 4 ++ w.drop 8 = w.drop 4 := by
      have h := List.take_append_drop 4 (w.drop 4)
      rwa [List.drop_drop] at h
    refine ⟨ofLittleEndian ((w.drop 8).take 2), w.drop 10, Nat.le_of_lt_succ hrouting, rfl, ?_⟩
    rw [standardFields, toNat_ofLittleEndian (List.length_take_le _ _),
      toNat_ofLittleEndian (List.length_take_le _ _), littleEndian_take (by omega),
      littleEndian_take (by rw [List.length_drop]; omega), littleEndian_take (by rw [List.length_drop]; omega),
      List.append_assoc, List.append_assoc, hback, hmiddle, List.take_append_drop]

/-! ### What the encoder makes -/

/-- The encoding of a message whose routing and payload are not too long. -/
def standardWire (routing payload : Bytes) : Bytes :=
  let size : UInt32 := .ofNat payload.length
  standardFields size (standardCheck size) routing.length ++ (routing ++ payload)

variable {routing body : Bytes}

theorem length_standardWire :
    (standardWire routing body).length = standardMinimum + routing.length + body.length := by
  simp only [standardWire, List.length_append, length_standardFields, Nat.add_assoc]

theorem encodeMessage_standard (hrouting : routing.length ≤ maxRouting) (hbody : body.length ≤ maxPayload) :
    standard.encodeMessage routing body = .ok (standardWire routing body) := by
  have hencode : standard.encode (.ofNat body.length) routing
      = .ok (standardFields (.ofNat body.length) (standardCheck (.ofNat body.length)) routing.length ++ routing) := by
    change standardEncode _ _ = _
    rw [standardEncode, if_neg (by omega), standardFields]
    simp only [List.append_assoc]
  rw [encodeMessage, if_neg (by omega), hencode, standardWire]
  simp only [Except.map, List.append_assoc]

theorem appendMessage_eq (l : Layout) (routing body buffer : Bytes) :
    l.appendMessage routing body buffer =
      match l.encodeMessage routing body with
      | .error e => (.error e, buffer)
      | .ok wire => (.ok (), buffer ++ wire) := by
  unfold appendMessage encodeMessage
  split
  case isTrue => rfl
  case isFalse =>
    cases l.encode (.ofNat body.length) routing with
    | error e => rfl
    | ok envelope => simp only [Except.map, List.append_assoc]

theorem lengths_of_encodeMessage {wire : Bytes} (h : standard.encodeMessage routing body = .ok wire) :
    routing.length ≤ maxRouting ∧ body.length ≤ maxPayload := by
  unfold encodeMessage at h
  split at h
  case isTrue => cases h
  case isFalse hbody =>
    change (standardEncode _ _).map _ = _ at h
    unfold standardEncode at h
    split at h
    case isTrue => cases h
    case isFalse hrouting => exact ⟨by omega, by omega⟩

end Layout

/-- The message that a receiver of the standard format makes of a routing and a payload. -/
def Message.standard (remote : String) (routing payload : Bytes) : Message :=
  ⟨⟨Layout.standardSizes (.ofNat payload.length) routing.length, routing, remote⟩, payload⟩

theorem toNat_length {bs : Bytes} (h : bs.length ≤ maxPayload) : (UInt32.ofNat bs.length).toNat = bs.length := by
  have hlt : bs.length < 2 ^ 32 := Nat.lt_succ_of_le h
  rw [UInt32.toNat_ofNat', Nat.mod_eq_of_lt hlt]

theorem Message.sizes_standard {routing payload : Bytes} (remote : String)
    (hrouting : routing.length ≤ Layout.maxRouting) (hpayload : payload.length ≤ maxPayload) :
    let m := Message.standard remote routing payload
    m.envelope.sizes.payload.toNat = payload.length
      ∧ m.envelope.sizes.overhead.toNat = Layout.standardMinimum + routing.length
      ∧ m.wireSize = Layout.standardMinimum + routing.length + payload.length := by
  have hsize := toNat_length hpayload
  refine ⟨hsize, Layout.toNat_overhead hrouting, ?_⟩
  exact (Layout.total_standardSizes hrouting).trans (congrArg _ hsize)

/-! ### What the decoder takes off -/

namespace Framing

open Layout (standardWire standardFields standardSizes maxRouting standardMinimum)

variable {routing payload rest src : Bytes} {ceiling n : Nat} {size : UInt32}

theorem measure_fields (hn : n ≤ maxRouting)
    (htotal : standardMinimum + n + size.toNat ≤ min ceiling maxPayload) (tail : Bytes) :
    (Framing.mk .standard ceiling).measure (standardFields size (Layout.standardCheck size) n ++ tail)
      = .ok (some (standardSizes size n, standardMinimum + n + size.toNat)) := by
  have hsizes : Layout.standard.sizes? (standardFields size (Layout.standardCheck size) n ++ tail)
      = some (standardSizes size n) := Layout.standardSizes?_fields_append hn tail
  have hbound : maxPayload < 0x100000000 := by decide
  rw [← Layout.total_standardSizes hn] at htotal ⊢
  obtain ⟨hceiling, hmax⟩ := Nat.le_min.mp htotal
  exact measure_of_sizes? (f := ⟨.standard, ceiling⟩) hsizes rfl (Nat.lt_of_le_of_lt hmax hbound) hceiling

theorem fields_of_measure {sizes : Sizes} {total : Nat}
    (h : (Framing.mk .standard ceiling).measure src = .ok (some (sizes, total))) :
    ∃ n tail, n ≤ maxRouting ∧ sizes = standardSizes sizes.payload n
      ∧ src = standardFields sizes.payload (Layout.standardCheck sizes.payload) n ++ tail
      ∧ total = standardMinimum + n + sizes.payload.toNat ∧ total ≤ min ceiling maxPayload := by
  obtain ⟨hsizes, htotal, hcheck, hlt, hceiling⟩ := measure_eq_some h
  obtain ⟨n, tail, hn, hover, hsrc⟩ := Layout.eq_fields_of_standardSizes? hsizes
  change sizes.check = Layout.standardCheck _ at hcheck
  have hcorrect : sizes = standardSizes sizes.payload n := by rw [standardSizes, ← hcheck, ← hover]
  rw [hcheck] at hsrc
  refine ⟨n, tail, hn, hcorrect, hsrc, ?_, Nat.le_min.mpr ⟨hceiling, Nat.le_of_lt_succ hlt⟩⟩
  rw [htotal, hcorrect, Layout.total_standardSizes hn]
  rfl

theorem decode_fields (hrouting : routing.length ≤ maxRouting) (hsize : size.toNat = payload.length)
    (htotal : standardMinimum + routing.length + size.toNat ≤ min ceiling maxPayload) :
    (Framing.mk .standard ceiling).decode remote
        (standardFields size (Layout.standardCheck size) routing.length ++ (routing ++ (payload ++ rest)))
      = .ok (some (⟨⟨standardSizes size routing.length, routing, remote⟩, payload⟩, rest)) := by
  obtain ⟨fields, hfields⟩ : ∃ fields,
    standardFields size (Layout.standardCheck size) routing.length = fields := ⟨_, rfl⟩
  have hmeasure := measure_fields hrouting htotal (routing ++ (payload ++ rest))
  have hover : (standardSizes size routing.length).overhead.toNat = standardMinimum + routing.length :=
    Layout.toNat_overhead hrouting
  have hlenFields : fields.length = standardMinimum := by rw [← hfields, Layout.length_standardFields]
  have hlenFront : (fields ++ routing).length = standardMinimum + routing.length := by
    rw [List.length_append, hlenFields]
  have hlenWire : (fields ++ routing ++ payload).length = standardMinimum + routing.length + size.toNat := by
    rw [List.length_append, hlenFront, hsize]
  rw [hfields] at hmeasure ⊢
  rw [← List.append_assoc, ← List.append_assoc] at hmeasure ⊢
  have henvelope : (Framing.mk .standard ceiling).envelope (standardSizes size routing.length)
      (fields ++ routing ++ payload ++ rest) remote = ⟨standardSizes size routing.length, routing, remote⟩ := by
    rw [envelope, hover, List.append_assoc, List.take_left' hlenFront]
    change Envelope.mk _ ((fields ++ routing).drop standardMinimum) _ = _
    rw [List.drop_left' hlenFields]
  rw [decode_of_measure_some hmeasure, if_pos (by rw [List.length_append]; omega), henvelope,
    List.take_left' hlenWire, List.drop_left' hlenWire, hover, List.drop_left' hlenFront]

/-- What the encoder makes of a message is taken off again as that message. -/
theorem decode_standardWire (hrouting : routing.length ≤ maxRouting)
    (htotal : standardMinimum + routing.length + payload.length ≤ min ceiling maxPayload) (rest : Bytes) :
    (Framing.mk .standard ceiling).decode remote (standardWire routing payload ++ rest)
      = .ok (some (.standard remote routing payload, rest)) := by
  have hsize := toNat_length (show payload.length ≤ maxPayload by omega)
  rw [standardWire, List.append_assoc, List.append_assoc]
  exact decode_fields hrouting hsize (by rwa [hsize])

theorem eq_standardWire_of_decode {m : Message}
    (h : (Framing.mk .standard ceiling).decode remote src = .ok (some (m, rest))) :
    m = .standard remote m.routing m.payload ∧ m.routing.length ≤ maxRouting
      ∧ standardMinimum + m.routing.length + m.payload.length ≤ min ceiling maxPayload
      ∧ src = standardWire m.routing m.payload ++ rest := by
  obtain ⟨sizes, total, hmeasure, hle, -, -⟩ := decode_eq_some h
  obtain ⟨n, tail, hn, -, rfl, htotal, hlimit⟩ := fields_of_measure hmeasure
  rw [List.length_append, Layout.length_standardFields] at hle
  -- The tail is cut where the fixed part says.
  obtain ⟨routing, payload, rest', hrouting, hpayload, rfl⟩ :
      ∃ routing payload rest', routing.length = n ∧ payload.length = sizes.payload.toNat
        ∧ tail = routing ++ (payload ++ rest') := by
    refine ⟨tail.take n, (tail.drop n).take sizes.payload.toNat, (tail.drop n).drop sizes.payload.toNat, ?_, ?_, ?_⟩
    · rw [List.length_take]
      omega
    · rw [List.length_take, List.length_drop]
      omega
    · rw [List.take_append_drop, List.take_append_drop]
  subst hrouting
  rw [htotal] at hlimit
  rw [decode_fields hn hpayload.symm hlimit] at h
  cases h
  have hsize : UInt32.ofNat payload.length = sizes.payload := by rw [hpayload, UInt32.ofNat_toNat]
  refine ⟨?_, hn, by rwa [← hpayload] at hlimit, ?_⟩
  · simp only [Message.standard, Message.routing, hsize]
  · simp only [standardWire, Message.routing, hsize, List.append_assoc]

/-- A relay that encodes the messages it took off passes on the bytes that they came in. -/
theorem encode_decodeAll (ceiling : Nat) (remote : String) (src : Bytes) :
    let u := (Framing.mk .standard ceiling).decodeAll remote src
    ∃ wires, u.messages.mapM (fun m => Layout.standard.encodeMessage m.routing m.payload) = .ok wires
      ∧ wires.flatten ++ u.rest = src := by
  induction src using decode_induction (f := ⟨.standard, ceiling⟩) Layout.standard_lawful remote with
  | error w e h =>
    rw [decodeAll_of_error h]
    exact ⟨[], rfl, rfl⟩
  | none w h =>
    rw [decodeAll_of_none h]
    exact ⟨[], rfl, rfl⟩
  | some w m rest h ih =>
    obtain ⟨wires, hwires, hrest⟩ := ih
    obtain ⟨-, hrouting, htotal, rfl⟩ := eq_standardWire_of_decode h
    have hwire := Layout.encodeMessage_standard hrouting (show m.payload.length ≤ maxPayload by omega)
    rw [decodeAll_of_some Layout.standard_lawful h]
    refine ⟨standardWire m.routing m.payload :: wires, ?_, ?_⟩
    · simp only [Unframed.after, List.singleton_append, List.mapM_cons, hwire, hwires]
      rfl
    · rw [List.flatten_cons, List.append_assoc]
      exact congrArg _ hrest

theorem takeMessage_of_ne_some {f : Framing} (h : ∀ m, (f.takeMessage remote src).1 ≠ .ok (some m)) :
    (f.takeMessage remote src).2 = src := by
  unfold takeMessage at h ⊢
  split
  case h_1 => rfl
  case h_2 => rfl
  case h_3 m rest hdecode =>
    simp only [hdecode] at h
    exact absurd rfl (h m)

theorem takeMessage_eq_some_iff {f : Framing} {m : Message} :
    f.takeMessage remote src = (.ok (some m), rest) ↔ f.decode remote src = .ok (some (m, rest)) := by
  unfold takeMessage
  cases f.decode remote src with
  | error e => simp
  | ok taken => cases taken <;> simp [Prod.ext_iff]

/-- **The decoder takes off exactly what the encoder makes**, within the ceiling. What is not taken off stays, and an
encoding that fails adds nothing. -/
theorem takeMessage_iff_encodeMessage (ceiling : Nat) (remote : String) (src : Bytes) :
    let f : Framing := ⟨.standard, ceiling⟩
    (∀ routing payload rest, f.takeMessage remote src = (.ok (some (.standard remote routing payload)), rest)
      ↔ routing.length ≤ 65535 ∧ 10 + routing.length + payload.length ≤ min ceiling 0xffffffff
        ∧ ∃ wire, Layout.standard.encodeMessage routing payload = .ok wire ∧ src = wire ++ rest)
    ∧ (∀ m rest, f.takeMessage remote src = (.ok (some m), rest) →
      m = .standard remote m.routing m.payload ∧ m.envelope.sizes.payload.toNat = m.payload.length
        ∧ m.envelope.sizes.overhead.toNat = 10 + m.routing.length
        ∧ m.wireSize = 10 + m.routing.length + m.payload.length)
    ∧ ((∀ m, (f.takeMessage remote src).1 ≠ .ok (some m)) → (f.takeMessage remote src).2 = src)
    ∧ (∀ routing payload buffer,
      (∀ e, Layout.standard.encodeMessage routing payload = .error e →
        Layout.standard.appendMessage routing payload buffer = (.error e, buffer))
      ∧ ∀ wire, Layout.standard.encodeMessage routing payload = .ok wire →
        Layout.standard.appendMessage routing payload buffer = (.ok (), buffer ++ wire))
    ∧ ∃ wires, (f.decodeAll remote src).messages.mapM
        (fun m => Layout.standard.encodeMessage m.routing m.payload) = .ok wires
      ∧ wires.flatten ++ (f.decodeAll remote src).rest = src := by
  intro f
  refine ⟨fun routing payload rest => ⟨fun h => ?_, fun ⟨hrouting, htotal, wire, hwire, hsrc⟩ => ?_⟩,
    fun m rest h => ?_, takeMessage_of_ne_some, fun routing payload buffer => ⟨fun e h => ?_, fun wire h => ?_⟩,
    encode_decodeAll ceiling remote src⟩
  · obtain ⟨-, hrouting, htotal, hsrc⟩ := eq_standardWire_of_decode (takeMessage_eq_some_iff.mp h)
    have hpayload : payload.length ≤ maxPayload := Nat.le_trans (Nat.le_add_left _ _) (Nat.le_min.mp htotal).2
    exact ⟨hrouting, htotal, _, Layout.encodeMessage_standard hrouting hpayload, hsrc⟩
  · have hpayload : payload.length ≤ maxPayload := (Layout.lengths_of_encodeMessage hwire).2
    rw [Layout.encodeMessage_standard hrouting hpayload] at hwire
    cases hwire
    rw [takeMessage_eq_some_iff, hsrc]
    exact decode_standardWire hrouting htotal rest
  · obtain ⟨hm, hrouting, htotal, -⟩ := eq_standardWire_of_decode (takeMessage_eq_some_iff.mp h)
    have hpayload : m.payload.length ≤ maxPayload := Nat.le_trans (Nat.le_add_left _ _) (Nat.le_min.mp htotal).2
    have hsizes := Message.sizes_standard remote hrouting hpayload
    rw [← hm] at hsizes
    exact ⟨hm, hsizes⟩
  · rw [Layout.appendMessage_eq, h]
  · rw [Layout.appendMessage_eq, h]

/-- A message that is just not too long, and a byte behind it. -/
theorem takeMessage_of_encoding :
    let src : Bytes := [2, 0, 0, 0, 0xa7, 0xa5, 0xa5, 0xa5, 3, 0, 7, 8, 9, 1, 4, 6]
    let m := Message.standard "peer" [7, 8, 9] [1, 4]
    (Framing.mk .standard 15).takeMessage "peer" src = (.ok (some m), [6]) ∧ m.wireSize = 15 := by
  intro src m
  have hwire : Layout.standard.encodeMessage [7, 8, 9] [1, 4]
      = .ok [2, 0, 0, 0, 0xa7, 0xa5, 0xa5, 0xa5, 3, 0, 7, 8, 9, 1, 4] := by cbv
  obtain ⟨htaken, hsizes, -⟩ := takeMessage_iff_encodeMessage 15 "peer" src
  have hm := (htaken [7, 8, 9] [1, 4] [6]).mpr ⟨by decide, by decide, _, hwire, rfl⟩
  exact ⟨hm, (hsizes m [6] hm).2.2.2⟩

end Framing

end MessageWire
