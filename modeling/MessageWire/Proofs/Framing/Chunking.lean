import MessageWire.Proofs.Framing.Assembly
/-!
# Cutting the stream

An assembler that takes in bytes is described by the bytes that have come since the last message
(`Assembler.Keeping`), and a receive moves it from one such description to the next (`Keeping.receiveAt`). So
the messages, the first error and what is pending at the end depend on the bytes of the stream alone, and not
on the receives it was cut into.
-/

namespace MessageWire

namespace Assembler

/-! ### Receives anywhere in the scratch buffer -/

/-- Takes in `data` as one receive at `offset` in the scratch buffer. -/
def receiveAt (a : Assembler) (offset : Nat) (data : Bytes) : Reaction :=
  match a.load offset data with
  | .error e => ⟨.error e, [], a⟩
  | .ok a' => a'.processAt offset data.length

/-- Takes in receives, each with its offset, until one fails. -/
def receiveAllAt (a : Assembler) : List (Nat × Bytes) → Reaction
  | [] => ⟨.ok (), [], a⟩
  | (offset, data) :: rest =>
    let now := a.receiveAt offset data
    match now.result with
    | .error _ => now
    | .ok () =>
      let later := now.assembler.receiveAllAt rest
      { later with events := now.events ++ later.events }

theorem receiveAll_eq_receiveAllAt (a : Assembler) (receives : List Bytes) :
    a.receiveAll receives = a.receiveAllAt (receives.map (0, ·)) := by
  induction receives generalizing a with
  | nil => rfl
  | cons data rest ih =>
    simp only [receiveAll, List.map_cons, receiveAllAt, ih]
    rfl

end Assembler

/-- What was put into the scratch buffer is what a receive finds there. -/
theorem Scratch.window_put (s : Scratch) (offset : Nat) (data : Bytes)
    (hfits : offset + data.length ≤ s.capacity) : (s.put offset data).window offset data.length = data := by
  have hall : data.take (s.capacity - offset) = data := List.take_of_length_le (by omega)
  rw [put, hall]
  cases data with
  | nil => rfl
  | cons b bs =>
    obtain ⟨before, hbefore⟩ : ∃ before, s.written.take offset ++
        List.replicate (offset - (s.written.take offset).length) 0 = before := ⟨_, rfl⟩
    have hlen : before.length = offset := by
      rw [← hbefore, List.length_append, List.length_replicate, List.length_take]
      omega
    simp only [hbefore, window, List.append_assoc, List.drop_left' hlen, List.take_left', Nat.sub_self,
      List.replicate_zero, List.append_nil]

@[simp] theorem Scratch.capacity_put (s : Scratch) (offset : Nat) (data : Bytes) :
    (s.put offset data).capacity = s.capacity := by
  unfold put
  split <;> rfl

namespace Assembler

variable {a : Assembler} {capacity : Nat} {held : Bytes}

/-! ### What an assembler holds -/

/-- The assembler takes in bytes, and `held` has come since the last message. -/
structure Keeping (a : Assembler) (capacity : Nat) (held : Bytes) : Prop where
  lawful : a.layout.Lawful
  storage : ∃ scratch, a.storage = .ready scratch ∧ scratch.capacity = capacity
  pending : a.pending = a.intake.hold held
  incomplete : a.framing.decode a.remote held = .ok none

/-- The same of an assembler that takes in the first bytes of an envelope alone. -/
structure Holding (a : Assembler) (capacity : Nat) (held : Bytes) : Prop extends Keeping a capacity held where
  allowPartial : a.settings.allowPartial = true

/-- What is seen from outside of an assembler that holds some bytes. -/
structure Shows (a : Assembler) (held : Bytes) : Prop where
  length : a.pending.length = held.length
  idle : a.state = .idle ↔ held = []
  body : a.state = .awaitingBody ↔ ∃ e, a.framing.readEnvelope held a.remote = .ok (some e)
  total : ∀ n, a.pending.total? = some n ↔ ∃ e, a.framing.readEnvelope held a.remote = .ok (some e) ∧
    n = e.sizes.overhead.toNat + e.sizes.payload.toNat
  header : a.state = .awaitingHeader ↔
    held ≠ [] ∧ ¬ ∃ e, a.framing.readEnvelope held a.remote = .ok (some e)

theorem Keeping.shows (h : a.Keeping capacity held) : a.Shows held := by
  obtain ⟨scratch, hstorage, -⟩ := h.storage
  by_cases hwhole : ∃ e, a.framing.readEnvelope held a.remote = .ok (some e)
  · obtain ⟨e, he⟩ := hwhole
    have hpending := h.pending.trans (Intake.hold_of_envelope (i := a.intake) he)
    have hne : held ≠ [] := by
      rintro rfl
      rw [Framing.readEnvelope_nil h.lawful] at he
      simp at he
    refine ⟨?_, ?_, ?_, fun n => ?_, ?_⟩
    · simp [hpending, Pending.length]
    · simp [state, hstorage, hpending, hne]
    · simp [state, hstorage, hpending, he]
    · simp [hpending, Pending.total?, he, Envelope.total, Sizes.total, eq_comm]
    · simp [state, hstorage, hpending, he]
  · have hpending := h.pending.trans (Intake.hold_of_no_envelope (i := a.intake) hwhole)
    have htotal : a.pending.total? = none := by
      rw [hpending]
      split <;> rfl
    have hnever : ∀ n, ¬ ∃ e, a.framing.readEnvelope held a.remote = .ok (some e) ∧
        n = e.sizes.overhead.toNat + e.sizes.payload.toNat :=
      fun n h => hwhole (h.imp fun e he => he.1)
    refine ⟨?_, ?_, ?_, fun n => by simp only [htotal, hnever n, reduceCtorEq], ?_⟩
    all_goals
      simp only [hwhole, state, hstorage, hpending]
      by_cases hnil : held = []
      · simp [hnil, Pending.length]
      · simp [hnil, Pending.length]

/-! ### One receive -/

theorem deliveries_heard (a : Assembler) (events : List Event) :
    (a.heard events).filterMap (·.delivery?) = events.filterMap (·.delivery?) := by
  rw [heard, List.filterMap_filter]
  congr 1
  funext e
  cases e <;> simp [Event.delivery?, Event.isDelivery]

theorem messages_heard (a : Assembler) (events : List Event) :
    Intake.messages (a.heard events) = Intake.messages events := by
  rw [Intake.messages, deliveries_heard, Intake.messages]

theorem framing_eq {b : Assembler} (hlayout : b.layout = a.layout) (hsettings : b.settings = a.settings) :
    b.framing = a.framing := by
  rw [framing, hlayout, hsettings, framing]

/-- A run changes nothing but what is pending and the scratch buffer. -/
theorem afterRun_eq (a : Assembler) (run : Intake.Run) :
    ∃ pending storage, a.afterRun run = { a with pending, storage } := by
  unfold afterRun
  repeat' split
  all_goals exact ⟨_, _, rfl⟩

theorem afterRun_of_ok {run : Intake.Run} (h : run.result = .ok ()) :
    a.afterRun run = { a with pending := run.pending } := by
  rw [afterRun, h]

/-- The bytes that a receive finds are those that were just put into the scratch buffer. -/
theorem receiveAt_eq_run {scratch : Scratch} {offset : Nat} {data : Bytes} (hstorage : a.storage = .ready scratch)
    (hfits : offset + data.length ≤ scratch.capacity) :
    a.receiveAt offset data =
      let run := a.intake.run a.pending data
      let loaded := { a with storage := .ready (scratch.put offset data) }
      ⟨run.result, a.heard (if run.result.isOk then run.events else run.events ++ [.progress .cleared]),
        loaded.afterRun run⟩ := by
  have hload : a.load offset data = .ok { a with storage := .ready (scratch.put offset data) } := by
    simp [load, Assembler.scratch, hstorage, Except.map]
  have hover : ¬ offset + data.length > scratch.capacity := by omega
  rw [receiveAt, hload]
  simp only [processAt, Assembler.scratch, Scratch.capacity_put, if_neg hover, Scratch.window_put _ _ _ hfits]
  rfl

theorem receiveAt_eq {scratch : Scratch} {offset : Nat} {data : Bytes} (hstorage : a.storage = .ready scratch)
    (hne : data ≠ []) (hfits : offset + data.length ≤ scratch.capacity) :
    a.receiveAt offset data =
      let run := a.intake.runFrom a.pending true data
      let loaded := { a with storage := .ready (scratch.put offset data) }
      ⟨run.result, a.heard (if run.result.isOk then run.events else run.events ++ [.progress .cleared]),
        loaded.afterRun run⟩ := by
  have hrun : a.intake.run a.pending data = a.intake.runFrom a.pending true data := by
    obtain ⟨b, bs, rfl⟩ := List.exists_cons_of_ne_nil hne
    rw [Intake.run]
    simp
  rw [receiveAt_eq_run hstorage hfits, hrun]

/-- **A receive takes off the messages that the decoder finds**, fails with the decoder's error, and leaves the
bytes that the decoder leaves. -/
theorem Keeping.receiveAt (h : a.Keeping capacity held) {offset : Nat} {data : Bytes} (hne : data ≠ [])
    (hfits : offset + data.length ≤ capacity)
    (hpartial : held = [] → a.settings.allowPartial = false → a.layout.minimum ≤ data.length) :
    let reaction := a.receiveAt offset data
    let u := a.framing.decodeAll a.remote (held ++ data)
    reaction.result = u.result ∧ Intake.messages reaction.events = u.messages ∧
      reaction.assembler.layout = a.layout ∧ reaction.assembler.settings = a.settings ∧
      reaction.assembler.remote = a.remote ∧ (u.error? = none → reaction.assembler.Keeping capacity u.rest) := by
  obtain ⟨scratch, hstorage, rfl⟩ := h.storage
  have hpartial' : held = [] → (true && !a.intake.allowPartial) = true →
      a.intake.framing.layout.minimum ≤ data.length :=
    fun hheld hrefused => hpartial hheld (by simpa [intake] using hrefused)
  have hrun := Intake.runFrom_eq (i := a.intake) h.lawful h.incomplete hpartial'
  rw [← h.pending] at hrun
  obtain ⟨hresult, hmessages, hpending⟩ := hrun
  obtain ⟨pending, storage, hafter⟩ := afterRun_eq { a with storage := .ready (scratch.put offset data) }
    (a.intake.runFrom a.pending true data)
  rw [receiveAt_eq hstorage hne hfits]
  refine ⟨hresult, ?_, ?_, ?_, ?_, fun hok => ?_⟩
  · rw [messages_heard]
    split
    · exact hmessages
    · rw [Intake.messages_append]
      exact (List.append_nil _).trans hmessages
  · simp only [hafter]
  · simp only [hafter]
  · simp only [hafter]
  · have hincomplete := Framing.decode_rest_decodeAll (f := a.framing) h.lawful a.remote (held ++ data)
    rw [hok] at hincomplete
    have hresult' : (a.intake.runFrom a.pending true data).result = .ok () := by
      rw [hresult]
      simp only [Framing.Unframed.result]
      rw [show (a.intake.framing.decodeAll a.intake.remote (held ++ data)).error? = none from hok]
    simp only [afterRun_of_ok hresult']
    exact ⟨h.lawful, ⟨_, rfl, Scratch.capacity_put _ _ _⟩, hpending hok, hincomplete⟩

theorem Holding.receiveAt (h : a.Holding capacity held) {offset : Nat} {data : Bytes} (hne : data ≠ [])
    (hfits : offset + data.length ≤ capacity) :
    let reaction := a.receiveAt offset data
    let u := a.framing.decodeAll a.remote (held ++ data)
    reaction.result = u.result ∧ Intake.messages reaction.events = u.messages ∧
      reaction.assembler.framing = a.framing ∧ reaction.assembler.remote = a.remote ∧
      (u.error? = none → reaction.assembler.Holding capacity u.rest) := by
  obtain ⟨hresult, hmessages, hlayout, hsettings, hremote, hkeeping⟩ :=
    h.toKeeping.receiveAt hne hfits fun _ hpartial => by simp [h.allowPartial] at hpartial
  exact ⟨hresult, hmessages, framing_eq hlayout hsettings, hremote,
    fun hok => ⟨hkeeping hok, hsettings ▸ h.allowPartial⟩⟩

/-! ### All receives -/

/-- No receive is refused for being short: the assembler takes in parts of envelopes, or every receive that finds
nothing held brings the fixed part of an envelope. -/
def Ample (a : Assembler) (held : Bytes) (receives : List (Nat × Bytes)) : Prop :=
  a.settings.allowPartial = false → ∀ before receive after, receives = before ++ receive :: after →
    (a.framing.decodeAll a.remote (held ++ before.flatMap (·.2))).rest = [] → a.layout.minimum ≤ receive.2.length

/-- **Where the stream is cut does not matter.** -/
theorem Keeping.receiveAllAt (h : a.Keeping capacity held) (receives : List (Nat × Bytes))
    (hfits : ∀ r ∈ receives, r.2 ≠ [] ∧ r.1 + r.2.length ≤ capacity) (hample : a.Ample held receives) :
    let reaction := a.receiveAllAt receives
    let u := a.framing.decodeAll a.remote (held ++ receives.flatMap (·.2))
    reaction.result = u.result ∧ Intake.messages reaction.events = u.messages ∧
      reaction.assembler.layout = a.layout ∧ reaction.assembler.settings = a.settings ∧
      reaction.assembler.remote = a.remote ∧ (u.error? = none → reaction.assembler.Keeping capacity u.rest) := by
  induction receives generalizing a held with
  | nil =>
    rw [Assembler.receiveAllAt, List.flatMap_nil, List.append_nil, Framing.decodeAll_of_none h.incomplete]
    exact ⟨rfl, rfl, rfl, rfl, rfl, fun _ => h⟩
  | cons receive rest ih =>
    obtain ⟨offset, data⟩ := receive
    obtain ⟨hne, hlen⟩ := hfits (offset, data) (by simp)
    have hpartial : held = [] → a.settings.allowPartial = false → a.layout.minimum ≤ data.length := by
      rintro rfl hpartial
      refine hample hpartial [] (offset, data) rest rfl ?_
      rw [List.flatMap_nil, List.append_nil, Framing.decodeAll_of_none h.incomplete]
    obtain ⟨hresult, hmessages, hlayout, hsettings, hremote, hkept⟩ := h.receiveAt hne hlen hpartial
    have hframing := framing_eq hlayout hsettings
    rw [Assembler.receiveAllAt, List.flatMap_cons, ← List.append_assoc]
    match herror : (a.framing.decodeAll a.remote (held ++ data)).error? with
    | some e =>
      rw [Framing.Unframed.result, herror] at hresult
      -- No receive comes after a failing one, and the decoder's error does not hear of later bytes.
      obtain ⟨hall, hsame⟩ := Framing.decodeAll_append_of_error h.lawful (held ++ data) (rest.flatMap (·.2)) herror
      simp only [hresult]
      rw [Framing.Unframed.result, hall, hsame]
      exact ⟨rfl, hmessages, hlayout, hsettings, hremote, fun h => nomatch h⟩
    | none =>
      rw [Framing.Unframed.result, herror] at hresult
      have hlater := ih (hkept herror) (fun r hr => hfits r (List.mem_cons_of_mem _ hr)) ?_
      · rw [hframing, hlayout, hsettings, hremote] at hlater
        obtain ⟨hresult', hmessages', hlayout', hsettings', hremote', hkept'⟩ := hlater
        simp only [hresult, Intake.messages_append, hmessages]
        rw [Framing.decodeAll_append h.lawful (held ++ data) (rest.flatMap (·.2)) herror]
        exact ⟨hresult', congrArg (_ ++ ·) hmessages', hlayout', hsettings', hremote', hkept'⟩
      · unfold Ample
        rw [hframing, hlayout, hsettings, hremote]
        intro hpartial before receive after hsplit hnil
        refine hample hpartial ((offset, data) :: before) receive after (congrArg _ hsplit) ?_
        rw [List.flatMap_cons, ← List.append_assoc, Framing.decodeAll_append h.lawful (held ++ data) _ herror]
        exact hnil

theorem Holding.receiveAllAt (h : a.Holding capacity held) (receives : List (Nat × Bytes))
    (hfits : ∀ r ∈ receives, r.2 ≠ [] ∧ r.1 + r.2.length ≤ capacity) :
    let reaction := a.receiveAllAt receives
    let u := a.framing.decodeAll a.remote (held ++ receives.flatMap (·.2))
    reaction.result = u.result ∧ Intake.messages reaction.events = u.messages ∧
      reaction.assembler.framing = a.framing ∧ reaction.assembler.remote = a.remote ∧
      (u.error? = none → reaction.assembler.Holding capacity u.rest) := by
  obtain ⟨hresult, hmessages, hlayout, hsettings, hremote, hkept⟩ :=
    h.toKeeping.receiveAllAt receives hfits fun hpartial => by simp [h.allowPartial] at hpartial
  exact ⟨hresult, hmessages, framing_eq hlayout hsettings, hremote,
    fun hok => ⟨hkept hok, hsettings ▸ h.allowPartial⟩⟩

/-! ### Feeding -/

theorem flatten_receives (capacity : Nat) (data : Bytes) : (receives capacity data).flatten = data := by
  unfold receives
  split
  · simp
  · have hsplit := List.take_append_drop (data.length / capacity * capacity) data
    simp only
    split
    case isTrue hnil =>
      rw [List.isEmpty_iff] at hnil
      rwa [hnil, List.append_nil, ← flatten_blocks] at hsplit
    case isFalse =>
      rwa [List.flatten_append, List.flatten_singleton, flatten_blocks]

theorem length_of_mem_receives {capacity : Nat} {data piece : Bytes} (hpos : 0 < capacity) (hne : data ≠ [])
    (h : piece ∈ receives capacity data) : piece ≠ [] ∧ piece.length ≤ capacity := by
  unfold receives at h
  split at h
  case isTrue hle =>
    obtain rfl := List.mem_singleton.mp h
    exact ⟨hne, hle⟩
  case isFalse hlong =>
    have hblock : ∀ block ∈ blocks capacity data, block ≠ [] ∧ block.length ≤ capacity := by
      intro block hmem
      have hlen := length_of_mem_blocks hmem
      exact ⟨List.ne_nil_of_length_pos (by omega), by omega⟩
    simp only at h
    split at h
    case isTrue => exact hblock piece h
    case isFalse hrest =>
      rcases List.mem_append.mp h with hmem | hmem
      · exact hblock piece hmem
      · obtain rfl := List.mem_singleton.mp hmem
        refine ⟨fun hnil => hrest (List.isEmpty_iff.mpr hnil), ?_⟩
        have hmod := Nat.mod_lt data.length hpos
        have hdiv := Nat.div_add_mod data.length capacity
        rw [Nat.mul_comm] at hdiv
        rw [List.length_drop]
        omega

theorem feed_eq_receiveAllAt {scratch : Scratch} (hstorage : a.storage = .ready scratch) (data : Bytes) :
    a.feed data = a.receiveAllAt ((receives scratch.capacity data).map (0, ·)) := by
  rw [Assembler.feed, ← receiveAll_eq_receiveAllAt]
  simp [Assembler.scratch, hstorage]

theorem Holding.feed (h : a.Holding capacity held) (hpos : 0 < capacity) {data : Bytes} (hne : data ≠ []) :
    let u := a.framing.decodeAll a.remote (held ++ data)
    (a.feed data).result = u.result ∧ Intake.messages (a.feed data).events = u.messages
      ∧ (u.error? = none → (a.feed data).assembler.Holding capacity u.rest) := by
  obtain ⟨scratch, hstorage, rfl⟩ := h.storage
  have hbytes : ((receives scratch.capacity data).map (0, ·)).flatMap (·.2) = data := by
    rw [List.flatMap_map]
    exact List.flatMap_id'.trans (flatten_receives _ _)
  have hall := h.receiveAllAt ((receives scratch.capacity data).map (0, ·)) fun r hr => by
    obtain ⟨piece, hpiece, rfl⟩ := List.mem_map.mp hr
    have hlen := length_of_mem_receives hpos hne hpiece
    exact ⟨hlen.1, by simpa using hlen.2⟩
  rw [hbytes, ← feed_eq_receiveAllAt hstorage] at hall
  exact ⟨hall.1, hall.2.1, hall.2.2.2.2⟩

/-! ### From an idle assembler -/

theorem keeping_of_idle {scratch : Scratch} (hlayout : a.layout = .standard) (hstorage : a.storage = .ready scratch)
    (hidle : a.pending = .idle) : a.Keeping scratch.capacity [] := by
  have hl : a.layout.Lawful := by
    rw [hlayout]
    exact Layout.standard_lawful
  refine ⟨hl, ⟨scratch, hstorage, rfl⟩, ?_, Framing.decode_nil (f := a.framing) hl⟩
  rw [hidle, Intake.hold_nil (i := a.intake) hl]

theorem holding_of_idle {scratch : Scratch} (hlayout : a.layout = .standard)
    (hpartial : a.settings.allowPartial = true) (hstorage : a.storage = .ready scratch) (hidle : a.pending = .idle) :
    a.Holding scratch.capacity [] :=
  ⟨keeping_of_idle hlayout hstorage hidle, hpartial⟩

/-- **Chunking does not matter.** However a stream is cut into receives, an idle assembler gives out the decoder's
messages, fails as it does, and keeps the rest. -/
theorem receiveAllAt_eq_decodeAll (a : Assembler) (scratch : Scratch) (stream : Bytes)
    (receives : List (Nat × Bytes)) (hlayout : a.layout = .standard) (hpartial : a.settings.allowPartial = true)
    (hstorage : a.storage = .ready scratch) (hidle : a.pending = .idle)
    (hcut : receives.flatMap (·.2) = stream)
    (hfits : ∀ r ∈ receives, r.2 ≠ [] ∧ r.1 + r.2.length ≤ scratch.capacity) :
    let u := a.framing.decodeAll a.remote stream
    let reaction := a.receiveAllAt receives
    reaction.deliveries.map (·.message) = u.messages ∧ reaction.result = u.result ∧
      (u.error? = none → reaction.assembler.Shows u.rest) ∧
      (0 < scratch.capacity → stream ≠ [] →
        (a.feed stream).deliveries.map (·.message) = u.messages ∧ (a.feed stream).result = u.result) := by
  have hheld := holding_of_idle hlayout hpartial hstorage hidle
  obtain ⟨hresult, hmessages, hframing, hremote, hholding⟩ := hheld.receiveAllAt receives hfits
  rw [hcut, List.nil_append] at hresult hmessages hholding
  refine ⟨hmessages, hresult, fun hok => (hholding hok).shows, fun hpos hne => ?_⟩
  obtain ⟨hfeedResult, hfeedMessages, -⟩ := hheld.feed hpos hne
  exact ⟨hfeedMessages, hfeedResult⟩

/-- Two messages, cut inside the fixed part of the first envelope and behind the first byte of the second. -/
theorem receiveAllAt_of_cut_envelopes :
    let a := ofSettings .standard "peer" { scratchCapacity := 16 }
    let receives : List (Nat × Bytes) :=
      [(0, [1, 0, 0, 0, 0xa4]), (3, [0xa5, 0xa5, 0xa5, 1, 0, 7, 9, 0]), (7, [0, 0, 0, 0xa5, 0xa5, 0xa5, 0xa5, 0, 0])]
    (∀ r ∈ receives, r.2 ≠ [] ∧ r.1 + r.2.length ≤ 16) ∧
      (a.receiveAllAt receives).deliveries.map (·.message) =
        [⟨⟨⟨1, 0xa5a5a5a4, 11⟩, [7], "peer"⟩, [9]⟩,
          ⟨⟨⟨0, 0xa5a5a5a5, 10⟩, [], "peer"⟩, []⟩] := by
  intro a receives
  have hfits : ∀ r ∈ receives, r.2 ≠ [] ∧ r.1 + r.2.length ≤ 16 := by decide
  refine ⟨hfits, (receiveAllAt_eq_decodeAll a { capacity := 16 } _ receives rfl rfl rfl rfl rfl hfits).1.trans ?_⟩
  decide +kernel

end Assembler

end MessageWire
