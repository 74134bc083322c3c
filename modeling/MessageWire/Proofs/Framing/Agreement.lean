import MessageWire.Proofs.Framing.Absorption
import MessageWire.Proofs.Framing.Sending
/-!
# The limits of senders and assemblers

A sender bounds the payload, the routing and the size of the whole message, each by itself. A decoder, which has the
sizes from the envelope, adds them up as 32-bit numbers first. So under the same ceiling an assembler takes what was
sent, but for the messages whose size is no 32-bit number: these are sent, and poison it (`Sender.arrival_of_send`).
-/

namespace MessageWire

/-! ### What the decoder makes of it -/

namespace Framing

variable {f : Framing} {remote : String} {routing payload : Bytes}

theorem decode_standardWire_of_unsummable {ceiling : Nat} (hrouting : routing.length ≤ Layout.maxRouting)
    (hpayload : payload.length ≤ maxPayload)
    (hsum : maxPayload < Layout.standardMinimum + routing.length + payload.length) (rest : Bytes) :
    (Framing.mk .standard ceiling).decode remote (Layout.standardWire routing payload ++ rest)
      = .error (.overflow (.ofNat payload.length) (.ofNat (Layout.standardMinimum + routing.length))) := by
  have hsizes : Layout.standard.sizes? (Layout.standardWire routing payload ++ rest)
      = some (Layout.standardSizes (.ofNat payload.length) routing.length) := by
    rw [Layout.standardWire, List.append_assoc]
    exact Layout.standardSizes?_fields_append hrouting _
  have htotal : (Layout.standardSizes (.ofNat payload.length) routing.length).total = _ :=
    Layout.total_standardSizes hrouting
  rw [toNat_length hpayload] at htotal
  apply decode_of_measure_error
  rw [measure, hsizes]
  simp only
  rw [if_neg (fun h => h rfl), if_pos (htotal ▸ Nat.succ_le_of_lt hsum)]
  rfl

theorem rest_decodeAll_of_single (hl : f.layout.Lawful) {front back : Bytes} (hback : back ≠ [])
    (hsingle : ∀ m rest, f.decode remote (front ++ back) = .ok (some (m, rest)) → rest = []) :
    (f.decodeAll remote front).rest = front := by
  match hdecode : f.decode remote front with
  | .error e => rw [decodeAll_of_error hdecode]
  | .ok none => rw [decodeAll_of_none hdecode]
  | .ok (some (m, rest)) =>
    have hnil := hsingle m _ (decode_append_of_some hl back hdecode)
    exact absurd (List.append_eq_nil_iff.mp hnil).2 hback

end Framing

namespace Assembler

variable {a : Assembler}

/-! ### What the assembler makes of it

An assembler that need not take in parts of envelopes is content if the first receive brings the fixed part, since
something is held from then on until the message is complete. -/

section Single

variable {capacity : Nat} {receives : List (Nat × Bytes)} (h : a.Keeping capacity [])
  (hfits : ∀ r ∈ receives, r.2 ≠ [] ∧ r.1 + r.2.length ≤ capacity)
  (hpartial : a.settings.allowPartial = true ∨ ∀ r ∈ receives.head?, a.layout.minimum ≤ r.2.length)

include h hfits hpartial

theorem Keeping.ample_of_single
    (hsingle : ∀ m rest, a.framing.decode a.remote (receives.flatMap (·.2)) = .ok (some (m, rest)) → rest = []) :
    a.Ample [] receives := by
  rintro hrefused before receive after rfl hrest
  have hfirst := hpartial.resolve_left (by simp [hrefused])
  cases before with
  | nil => exact hfirst receive rfl
  | cons r before =>
    have hback : (receive :: after).flatMap (·.2) ≠ [] := by
      rw [List.flatMap_cons]
      exact List.append_ne_nil_of_left_ne_nil (hfits receive (by simp)).1 _
    rw [List.flatMap_append] at hsingle
    rw [List.nil_append, Framing.rest_decodeAll_of_single h.lawful hback hsingle, List.flatMap_cons] at hrest
    exact absurd (List.append_eq_nil_iff.mp hrest).1 (hfits r (by simp)).1

theorem Keeping.receiveAllAt_of_decode {m : Message}
    (hdecode : a.framing.decode a.remote (receives.flatMap (·.2)) = .ok (some (m, []))) :
    let reaction := a.receiveAllAt receives
    reaction.result = .ok () ∧ reaction.deliveries.map (·.message) = [m] ∧ reaction.assembler.state = .idle := by
  have hample := h.ample_of_single hfits hpartial fun m' rest h' => by
    rw [hdecode] at h'
    cases h'
    rfl
  obtain ⟨hresult, hmessages, -, -, -, hkept⟩ := h.receiveAllAt receives hfits hample
  rw [List.nil_append, Framing.decodeAll_of_some h.lawful hdecode,
    Framing.decodeAll_of_none (Framing.decode_nil h.lawful)] at hresult hmessages hkept
  exact ⟨hresult, hmessages, (hkept rfl).shows.idle.mpr rfl⟩

theorem Keeping.receiveAllAt_of_overflow (horderly : a.Orderly) {payload overhead : UInt32}
    (hdecode : a.framing.decode a.remote (receives.flatMap (·.2)) = .error (.overflow payload overhead)) :
    let reaction := a.receiveAllAt receives
    reaction.result = .error (.overflow payload overhead) ∧ reaction.deliveries = []
      ∧ reaction.assembler.state = .poisoned := by
  have hample := h.ample_of_single hfits hpartial fun m rest h' => by
    rw [hdecode] at h'
    cases h'
  obtain ⟨hresult, hmessages, -⟩ := h.receiveAllAt receives hfits hample
  rw [List.nil_append, Framing.decodeAll_of_error hdecode] at hresult hmessages
  have hfails := horderly.failsInReceive_of_receiveAllAt (fun _ => scratch_ne_overflow) receives hresult
  exact ⟨hresult, List.map_eq_nil_iff.mp hmessages, hfails.poisons.gone.state_of_poisoned⟩

end Single

end Assembler

/-- **Limits agree up to the width of sizes.** What a sender sends, an assembler with its ceiling gives out, unless the
size is no 32-bit number. -/
theorem Sender.arrival_of_send (s : Sender) (a : Assembler) (scratch : Scratch) (routing payload : Bytes)
    (hsender : s.layout = .standard) (hlayout : a.layout = .standard)
    (hceiling : a.settings.maxMessageSize = s.maxMessageSize) (hstorage : a.storage = .ready scratch)
    (hidle : a.pending = .idle) :
    let size := 10 + routing.length + payload.length
    (s.sink.Patient → ((s.send routing payload).1 = .ok () ↔
        routing.length ≤ 65535 ∧ payload.length ≤ 0xffffffff ∧ size ≤ s.maxMessageSize))
      ∧ ((s.send routing payload).1 = .ok () →
        ∃ wire, (s.send routing payload).2.sink.bytes = s.sink.bytes ++ wire
          ∧ ∀ receives : List (Nat × Bytes), receives.flatMap (·.2) = wire →
            (∀ r ∈ receives, r.2 ≠ [] ∧ r.1 + r.2.length ≤ scratch.capacity) →
            (a.settings.allowPartial = true ∨ ∀ r ∈ receives.head?, 10 ≤ r.2.length) →
            let reaction := a.receiveAllAt receives
            (size ≤ 0xffffffff → reaction.result = .ok ()
                ∧ reaction.deliveries.map (·.message) = [.standard a.remote routing payload]
                ∧ reaction.assembler.state = .idle)
              ∧ (0xffffffff < size →
                reaction.result = .error (.overflow (.ofNat payload.length) (.ofNat (10 + routing.length)))
                  ∧ reaction.deliveries = [] ∧ reaction.assembler.state = .poisoned)) := by
  intro size
  refine ⟨fun hpatient => ⟨fun hsent => ?_, fun ⟨hrouting, hpayload, htotal⟩ => ?_⟩, fun hsent => ?_⟩
  · obtain ⟨wire, hwire, -⟩ := bytes_of_send hsent
    obtain ⟨hrouting, hpayload, htotal, -⟩ := (wire_eq_ok_iff hsender).mp hwire
    exact ⟨hrouting, hpayload, htotal⟩
  · obtain ⟨sink, hsend, -⟩ := send_of_wire hpatient
      ((wire_eq_ok_iff hsender).mpr ⟨hrouting, hpayload, htotal, rfl⟩)
    rw [hsend]
  · obtain ⟨wire, hwire, hbytes⟩ := bytes_of_send hsent
    obtain ⟨hrouting, hpayload, htotal, rfl⟩ := (wire_eq_ok_iff hsender).mp hwire
    have hframing : a.framing = ⟨.standard, s.maxMessageSize⟩ := by rw [Assembler.framing, hlayout, hceiling]
    have hkeeping := Assembler.keeping_of_idle hlayout hstorage hidle
    refine ⟨_, hbytes, fun receives hcut hfits hpartial => ⟨fun hsum => ?_, fun hsum => ?_⟩⟩
    · have hdecode : a.framing.decode a.remote (receives.flatMap (·.2))
          = .ok (some (.standard a.remote routing payload, [])) := by
        rw [hcut, hframing, ← List.append_nil (Layout.standardWire routing payload)]
        exact Framing.decode_standardWire hrouting (Nat.le_min.mpr ⟨htotal, hsum⟩) []
      exact hkeeping.receiveAllAt_of_decode hfits (hlayout ▸ hpartial) hdecode
    · have hdecode : a.framing.decode a.remote (receives.flatMap (·.2))
          = .error (.overflow (.ofNat payload.length) (.ofNat (10 + routing.length))) := by
        rw [hcut, hframing, ← List.append_nil (Layout.standardWire routing payload)]
        exact Framing.decode_standardWire_of_unsummable hrouting hpayload hsum []
      exact hkeeping.receiveAllAt_of_overflow hfits (hlayout ▸ hpartial) (Assembler.orderly_of_idle hidle) hdecode

/-- A message as long as allowed, to an assembler that takes in no part of an envelope alone. -/
theorem Sender.arrival_of_send_in_two_receives :
    let s : Sender := { sink := { plan := [.give 3, .fail .interrupted] }, maxMessageSize := 13 }
    let a := Assembler.ofSettings .standard "peer"
      { maxMessageSize := 13, allowPartial := false, scratchCapacity := 16 }
    let receives : List (Nat × Bytes) := [(0, [2, 0, 0, 0, 0xa7, 0xa5, 0xa5, 0xa5, 1, 0, 7]), (5, [9, 4])]
    (s.send [7] [9, 4]).1 = .ok () ∧ (s.send [7] [9, 4]).2.sink.bytes = receives.flatMap (·.2)
      ∧ (a.receiveAllAt receives).deliveries.map (·.message) = [.standard "peer" [7] [9, 4]] := by
  intro s a receives
  have hpatient : s.sink.Patient :=
    ⟨⟨by simp [s], by simp [s, IoError.Repeated]⟩, by simp [s]⟩
  obtain ⟨hlimits, harrival⟩ := arrival_of_send s a { capacity := 16 } [7] [9, 4] rfl rfl rfl rfl rfl
  have hsent : (s.send [7] [9, 4]).1 = .ok () := (hlimits hpatient).mpr (by decide)
  obtain ⟨wire, hbytes, hreceived⟩ := harrival hsent
  have hwire : s.wire [7] [9, 4] = .ok (receives.flatMap (·.2)) :=
    (wire_eq_ok_iff rfl).mpr ⟨by decide, by decide, by decide, rfl⟩
  obtain ⟨sink, hsend, hsunk, -⟩ := send_of_wire hpatient hwire
  have hwritten : (s.send [7] [9, 4]).2.sink.bytes = receives.flatMap (·.2) := by
    rw [hsend]
    exact hsunk
  have hcut : receives.flatMap (·.2) = wire := hwritten.symm.trans hbytes
  obtain ⟨hdelivered, -⟩ := hreceived receives hcut (by decide) (.inr (by decide))
  exact ⟨hsent, hwritten, (hdelivered (by decide)).2.1⟩

/-- With the longest payload and no routing, the fixed part alone is fatal. -/
theorem Sender.poisoned_by_longest_payload :
    let s : Sender := { sink := {}, maxMessageSize := 0xffffffffffffffff }
    let a := Assembler.ofSettings .standard "peer" { maxMessageSize := 0xffffffffffffffff }
    let payload : Bytes := List.replicate 0xffffffff 0
    let front : Bytes := [0xff, 0xff, 0xff, 0xff, 0x5a, 0x5a, 0x5a, 0x5a, 0, 0]
    (s.send [] payload).1 = .ok () ∧ (s.send [] payload).2.sink.bytes = front ++ payload
      ∧ (a.receive front).result = .error (.overflow 0xffffffff 10) ∧ (a.receive front).deliveries = []
      ∧ ∀ rest, (a.receive front).assembler.feed rest
        = ⟨.error .poisoned, [], (a.receive front).assembler⟩ := by
  intro s a payload front
  have hlen : payload.length = 0xffffffff := List.length_replicate
  clear_value payload
  have hwire : s.wire [] payload = .ok (front ++ payload) := by
    refine (wire_eq_ok_iff rfl).mpr ⟨Nat.zero_le _, Nat.le_of_eq hlen, ?_, ?_⟩
    · rw [hlen]
      decide
    · rw [Layout.standardWire, hlen]
      rfl
  have hpatient : s.sink.Patient := ⟨⟨by simp [s], by simp [s]⟩, by simp [s]⟩
  obtain ⟨sink, hsend, hbytes, -⟩ := send_of_wire hpatient hwire
  have hresult : (a.receive front).result = .error (.overflow 0xffffffff 10) := by decide +kernel
  have hfails := (Assembler.orderly_of_idle (a := a) rfl).failsInReceive_of_receive
    (fun _ => Assembler.scratch_ne_overflow) hresult
  refine ⟨by rw [hsend], by rw [hsend]; exact hbytes, hresult, by decide +kernel, fun rest => ?_⟩
  exact hfails.poisons.gone.feed_eq rest

end MessageWire
