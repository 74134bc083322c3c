import MessageWire.Proofs.Framing.Prefix
import MessageWire.Message.Assembler
/-!
# The assembler and the decoder

What an assembler keeps between receives is told by the bytes that have come since the last message
(`Intake.hold`), and one step is one use of the decoder on those bytes followed by the receive
(`Intake.step_eq_assemble`). Everything else follows from these two: a whole receive takes off the messages
that the decoder finds (`Intake.runFrom_eq`), and so does any sequence of receives, wherever the stream is cut
(`Assembler.receiveAllAt_eq_decodeAll`).
-/

namespace MessageWire

/-- What is told of an unfinished message that is kept. -/
def Pending.progress : Pending → Progress
  | idle => .cleared
  | header received => ⟨none, received.size, 0⟩
  | body envelope received total => ⟨some envelope, received.size, total⟩

namespace Intake

variable {i : Intake}

/-! ### What is kept -/

/-- What is pending when `held` has come since the last message. -/
def hold (i : Intake) (held : Bytes) : Pending :=
  match i.framing.readEnvelope held i.remote with
  | .ok (some envelope) => .body envelope held.toArray envelope.total
  | _ => if held = [] then .idle else .header held.toArray

/-- One step, told by the decoder: `window` comes after the bytes in `held`. A message is owned if some of
it was held. -/
def assemble (i : Intake) (held window : Bytes) : Except MessageError Advance :=
  match i.framing.decode i.remote (held ++ window) with
  | .error e => .error e
  | .ok (some (m, rest)) =>
    .ok ⟨window.length - rest.length, .idle, completed m.envelope m.envelope.total m.payload !held.isEmpty⟩
  | .ok none =>
    let kept := i.hold (held ++ window)
    .ok ⟨window.length, kept, [.progress kept.progress]⟩

theorem hold_of_envelope {held : Bytes} {envelope : Envelope}
    (h : i.framing.readEnvelope held i.remote = .ok (some envelope)) :
    i.hold held = .body envelope held.toArray envelope.total := by
  rw [hold, h]

theorem hold_of_no_envelope {held : Bytes} (h : ¬ ∃ e, i.framing.readEnvelope held i.remote = .ok (some e)) :
    i.hold held = if held = [] then .idle else .header held.toArray := by
  unfold hold
  split
  case h_1 e he => exact absurd ⟨e, he⟩ h
  case h_2 => rfl

theorem hold_of_measure_none {held : Bytes} (h : i.framing.measure held = .ok none) :
    i.hold held = if held = [] then .idle else .header held.toArray := by
  rw [hold, Framing.readEnvelope, h]

theorem hold_nil (hl : i.framing.layout.Lawful) : i.hold [] = .idle := by
  rw [hold_of_measure_none ((Framing.measure_eq_none_iff hl []).mpr hl.minimum_pos), if_pos rfl]

theorem hold_of_measure_some (hl : i.framing.layout.Lawful) {held : Bytes} {sizes : Sizes} {total : Nat}
    (h : i.framing.measure held = .ok (some (sizes, total))) :
    i.hold held =
      if sizes.overhead.toNat ≤ held.length then
        .body (i.framing.envelope sizes held i.remote) held.toArray total
      else .header held.toArray := by
  have hne : held ≠ [] := by
    rintro rfl
    have hbounds := Framing.bounds_of_measure hl h
    have hpos := hl.minimum_pos
    simp only [List.length_nil] at hbounds
    omega
  have htotal := (Framing.measure_eq_some h).2.1
  rw [hold, Framing.readEnvelope, h]
  by_cases hoverhead : sizes.overhead.toNat ≤ held.length
  · simp only [(reaches_iff _ _).mpr hoverhead, if_true, if_pos hoverhead, htotal]
    rfl
  · have hreach : reaches sizes.overhead.toNat held = false := by
      rwa [← Bool.not_eq_true, reaches_iff]
    simp only [hreach, Bool.false_eq_true, if_false, if_neg hoverhead, if_neg hne]

/-! ### What a step makes of them -/

theorem assemble_of_measure_error {held window : Bytes} {e : MessageError}
    (h : i.framing.measure (held ++ window) = .error e) : i.assemble held window = .error e := by
  rw [assemble, Framing.decode_of_measure_error h]

theorem assemble_of_measure_none {held window : Bytes} (hne : window ≠ [])
    (h : i.framing.measure (held ++ window) = .ok none) :
    i.assemble held window = .ok (keepHeader (held ++ window).toArray window.length) := by
  have hwhole : held ++ window ≠ [] := by simp [hne]
  simp only [assemble, Framing.decode_of_measure_none h, hold_of_measure_none h, if_neg hwhole]
  rfl

theorem assemble_of_complete {held window : Bytes} {sizes : Sizes} {total : Nat}
    (h : i.framing.measure (held ++ window) = .ok (some (sizes, total))) (hheld : held.length ≤ total)
    (htotal : total ≤ (held ++ window).length) :
    i.assemble held window =
      .ok ⟨total - held.length, .idle, completed (i.framing.envelope sizes (held ++ window) i.remote) total
        (((held ++ window).take total).drop sizes.overhead.toNat) !held.isEmpty⟩ := by
  have hrest : window.length - ((held ++ window).drop total).length = total - held.length := by
    rw [List.length_append] at htotal
    rw [List.length_drop, List.length_append]
    omega
  obtain ⟨-, rfl, -⟩ := Framing.measure_eq_some h
  rw [assemble, Framing.decode_of_measure_some h, if_pos htotal]
  simp only [hrest]
  rfl

theorem assemble_of_incomplete (hl : i.framing.layout.Lawful) {held window : Bytes} {sizes : Sizes} {total : Nat}
    (h : i.framing.measure (held ++ window) = .ok (some (sizes, total)))
    (htotal : (held ++ window).length < total) :
    i.assemble held window =
      if sizes.overhead.toNat ≤ (held ++ window).length then
        .ok ⟨window.length,
          .body (i.framing.envelope sizes (held ++ window) i.remote) (held ++ window).toArray total,
          [.progress ⟨some (i.framing.envelope sizes (held ++ window) i.remote), (held ++ window).length, total⟩]⟩
      else .ok (keepHeader (held ++ window).toArray window.length) := by
  rw [assemble, Framing.decode_of_measure_some h, if_neg (by omega)]
  simp only [hold_of_measure_some hl h]
  split <;> rfl

/-! ### The steps of the assembler -/

/-- The first receive of a message may be refused for being short only if it is. -/
theorem begin_eq_assemble (hl : i.framing.layout.Lawful) {window : Bytes} {fresh : Bool} (hne : window ≠ [])
    (hpartial : (fresh && !i.allowPartial) = true → i.framing.layout.minimum ≤ window.length) :
    i.begin fresh window = i.assemble [] window := by
  have hwhole : [] ++ window = window := List.nil_append window
  match hmeasure : i.framing.measure window with
  | .error e => rw [begin, hmeasure, assemble_of_measure_error (hwhole ▸ hmeasure)]
  | .ok none =>
    have hshort := (Framing.measure_eq_none_iff hl window).mp hmeasure
    have hkeep : ¬ (fresh && !i.allowPartial) = true := by
      intro h
      have hlong := hpartial h
      omega
    rw [begin, hmeasure, assemble_of_measure_none hne (hwhole ▸ hmeasure)]
    simp only [if_neg hkeep, hwhole]
  | .ok (some (sizes, total)) =>
    have hbounds := Framing.bounds_of_measure hl hmeasure
    rw [begin, hmeasure]
    simp only [Bool.not_eq_true', ← Bool.not_eq_true, reaches_iff]
    by_cases htotal : total ≤ window.length
    · rw [if_neg (by omega), if_pos htotal, assemble_of_complete (hwhole ▸ hmeasure) (Nat.zero_le _) htotal]
      rfl
    · rw [if_neg htotal, assemble_of_incomplete hl (hwhole ▸ hmeasure) (by rw [hwhole]; omega), hwhole]
      by_cases hoverhead : sizes.overhead.toNat ≤ window.length
      · rw [if_pos hoverhead, if_neg (by omega)]
        rfl
      · rw [if_neg hoverhead, if_pos hoverhead]

/-- A body takes in what it still wants, or all there is. -/
theorem extendBody_eq (envelope : Envelope) (held window : Bytes) (total : Nat) (h : held.length ≤ total) :
    extendBody envelope held.toArray total window =
      if total ≤ (held ++ window).length then
        .ok ⟨total - held.length, .idle,
          completed envelope total (((held ++ window).take total).drop envelope.sizes.overhead.toNat) true⟩
      else
        .ok ⟨window.length, .body envelope (held ++ window).toArray total,
          [.progress ⟨some envelope, (held ++ window).length, total⟩]⟩ := by
  have htaken : held.toArray.appendList (window.take (total - held.length)) =
      ((held ++ window).take total).toArray := by
    rw [List.take_append, List.take_of_length_le h]
    simp
  unfold extendBody
  simp only [List.size_toArray, if_neg (Nat.not_lt.mpr h), htaken]
  by_cases htotal : total ≤ (held ++ window).length
  · rw [if_pos htotal, if_neg (by rw [List.length_take]; omega)]
    rw [List.length_append] at htotal
    rw [List.length_take, Nat.min_eq_left (by omega)]
  · have hall : (held ++ window).take total = held ++ window := List.take_of_length_le (by omega)
    rw [if_neg htotal, hall, if_pos (by omega)]
    rw [List.length_append] at htotal
    rw [List.length_take, Nat.min_eq_right (by omega)]

theorem extendBody_eq_assemble (hl : i.framing.layout.Lawful) {held window : Bytes} {sizes : Sizes} {total : Nat}
    (hheld : held ≠ []) (h : i.framing.measure (held ++ window) = .ok (some (sizes, total)))
    (hoverhead : sizes.overhead.toNat ≤ held.length) (hle : held.length ≤ total) :
    extendBody (i.framing.envelope sizes held i.remote) held.toArray total window = i.assemble held window := by
  have henvelope : i.framing.envelope sizes (held ++ window) i.remote = i.framing.envelope sizes held i.remote :=
    Framing.envelope_append sizes held window hoverhead
  have howned : (!held.isEmpty) = true := by simp [hheld]
  rw [extendBody_eq _ _ _ _ hle]
  by_cases htotal : total ≤ (held ++ window).length
  · rw [if_pos htotal, assemble_of_complete h hle htotal, henvelope, howned]
    rfl
  · rw [if_neg htotal, assemble_of_incomplete hl h (by omega), henvelope,
      if_pos (by rw [List.length_append]; omega)]

/-- Part of a receive may be held already, if the message at hand goes on behind it. -/
theorem assemble_append {held taken later : Bytes} {sizes : Sizes} {total : Nat} (hheld : held ≠ [])
    (h : i.framing.measure (held ++ (taken ++ later)) = .ok (some (sizes, total)))
    (hle : (held ++ taken).length ≤ total) :
    (i.assemble (held ++ taken) later).map (Advance.after taken.length) = i.assemble held (taken ++ later) := by
  have howned : (!(held ++ taken).isEmpty) = !held.isEmpty := by
    obtain ⟨b, bs, rfl⟩ := List.exists_cons_of_ne_nil hheld
    rfl
  have hcount : taken.length + (later.length - ((held ++ (taken ++ later)).drop total).length) =
      (taken ++ later).length - ((held ++ (taken ++ later)).drop total).length := by
    simp only [List.length_append, List.length_drop] at hle ⊢
    omega
  unfold assemble
  rw [List.append_assoc, Framing.decode_of_measure_some h, howned]
  by_cases htotal : total ≤ (held ++ (taken ++ later)).length
  · simp only [if_pos htotal, Except.map, Advance.after, hcount]
  · simp only [if_neg htotal, Except.map, Advance.after]
    rw [List.length_append]

/-- Behind the fixed part a step takes bytes up to the end of the envelope, or all there are. -/
theorem extendEnvelope_eq_assemble (hl : i.framing.layout.Lawful) {held taken later : Bytes} {sizes : Sizes}
    {total : Nat} (hheld : held ≠ [])
    (h : i.framing.measure (held ++ (taken ++ later)) = .ok (some (sizes, total)))
    (hend : (held ++ taken).length = sizes.overhead.toNat ∨
      (held ++ taken).length < sizes.overhead.toNat ∧ later = []) :
    (if (held ++ taken).length < sizes.overhead.toNat then .ok (keepHeader (held ++ taken).toArray taken.length)
      else (extendBody (i.framing.envelope sizes (held ++ taken) i.remote) (held ++ taken).toArray total later).map
        (Advance.after taken.length)) = i.assemble held (taken ++ later) := by
  have hbounds := Framing.bounds_of_measure hl h
  obtain hend | ⟨hshort, rfl⟩ := hend
  · have hne : held ++ taken ≠ [] := by simp [hheld]
    have hbody := extendBody_eq_assemble hl hne (by rwa [List.append_assoc]) (Nat.le_of_eq hend.symm) (by omega)
    rw [if_neg (by omega), hbody, assemble_append hheld h (by omega)]
  · rw [List.append_nil] at h ⊢
    rw [if_pos hshort, assemble_of_incomplete hl h (by omega), if_neg (by omega)]

theorem take_append_drop_length (count : Nat) (window : Bytes) :
    window.take count ++ window.drop (window.take count).length = window := by
  by_cases h : count ≤ window.length
  · rw [List.length_take, Nat.min_eq_left h, List.take_append_drop]
  · rw [List.take_of_length_le (by omega), List.drop_length, List.append_nil]

theorem appendList_toArray (held more : Bytes) : held.toArray.appendList more = (held ++ more).toArray := by
  simp

/-- As long as only the fixed part is filled up, no byte behind the envelope is held. -/
theorem length_le_overhead (hl : i.framing.layout.Lawful) {held first : Bytes} {sizes : Sizes} {total : Nat}
    (hfirst : first.length ≤ i.framing.layout.minimum - held.length)
    (hshort : i.framing.layout.minimum ≤ held.length →
      ∃ sizes, i.framing.layout.sizes? held = some sizes ∧ held.length < sizes.overhead.toNat)
    (h : i.framing.measure (held ++ first) = .ok (some (sizes, total))) :
    (held ++ first).length ≤ sizes.overhead.toNat := by
  have hbounds := Framing.bounds_of_measure hl h
  rw [List.length_append]
  by_cases hlong : i.framing.layout.minimum ≤ held.length
  · obtain ⟨sizes', hsizes', hlt⟩ := hshort hlong
    have hsizes := (Framing.measure_eq_some h).1
    rw [hl.sizes?_append held first hlong, hsizes'] at hsizes
    obtain rfl := Option.some.inj hsizes
    omega
  · omega

/-- A part of an envelope is taken up to the fixed part first, and then up to its end, when all that has come was
measured. -/
theorem extendHeader_eq_assemble (hl : i.framing.layout.Lawful) {held window : Bytes} (hne : window ≠ [])
    (hheld : held ≠ [])
    (hshort : i.framing.layout.minimum ≤ held.length →
      ∃ sizes total, i.framing.measure held = .ok (some (sizes, total)) ∧ held.length < sizes.overhead.toNat) :
    i.extendHeader held.toArray window = i.assemble held window := by
  obtain ⟨first, hfirst⟩ : ∃ first, window.take (i.framing.layout.minimum - held.length) = first := ⟨_, rfl⟩
  obtain ⟨behind, hbehind⟩ : ∃ behind, window.drop first.length = behind := ⟨_, rfl⟩
  have hwindow : first ++ behind = window := by
    rw [← hbehind, ← hfirst]
    exact take_append_drop_length _ _
  have hlenFirst : first.length = min (i.framing.layout.minimum - held.length) window.length := by
    rw [← hfirst, List.length_take]
  have hwhole : held ++ window = (held ++ first) ++ behind := by rw [List.append_assoc, hwindow]
  have hlenWindow : window.length = first.length + behind.length := by rw [← hwindow, List.length_append]
  unfold extendHeader
  simp only [List.size_toArray, hfirst, hbehind, appendList_toArray]
  -- Either all bytes go into the fixed part, or it is whole now and nothing behind it was held.
  by_cases hmin : (held ++ first).length < i.framing.layout.minimum
  · have hall : first = window := by
      have hnil : behind = [] := List.eq_nil_of_length_eq_zero (by rw [List.length_append] at hmin; omega)
      rw [← hwindow, hnil, List.append_nil]
    have hnone := (Framing.measure_eq_none_iff hl (held ++ first)).mpr hmin
    rw [hnone, assemble_of_measure_none hne (hall ▸ hnone), hall]
    simp only [← hall, if_pos hmin]
  have hmeasure : i.framing.measure (held ++ window) = i.framing.measure (held ++ first) := by
    rw [hwhole]
    exact Framing.measure_append hl _ _ (by omega)
  match hreceived : i.framing.measure (held ++ first) with
  | .error e => rw [assemble_of_measure_error (hmeasure.trans hreceived)]
  | .ok none => exact absurd ((Framing.measure_eq_none_iff hl _).mp hreceived) hmin
  | .ok (some (sizes, total)) =>
    have hbounds := Framing.bounds_of_measure hl hreceived
    have hle : (held ++ first).length ≤ sizes.overhead.toNat := by
      apply length_le_overhead hl (by omega) _ hreceived
      intro hlong
      obtain ⟨sizes', total', hheld', hlt⟩ := hshort hlong
      exact ⟨sizes', (Framing.measure_eq_some hheld').1, hlt⟩
    obtain ⟨more, hmore⟩ :
        ∃ more, behind.take (sizes.overhead.toNat - (held ++ first).length) = more := ⟨_, rfl⟩
    obtain ⟨later, hlater⟩ : ∃ later, behind.drop more.length = later := ⟨_, rfl⟩
    have hbehind : more ++ later = behind := by
      rw [← hlater, ← hmore]
      exact take_append_drop_length _ _
    have hlenMore : more.length = min (sizes.overhead.toNat - (held ++ first).length) behind.length := by
      rw [← hmore, List.length_take]
    have htaken : (held ++ first) ++ more = held ++ (first ++ more) := List.append_assoc _ _ _
    have hsplit : window = (first ++ more) ++ later := by rw [List.append_assoc, hbehind, hwindow]
    have hcount : first.length + more.length = (first ++ more).length := List.length_append.symm
    have hsum : (held ++ (first ++ more)).length = (held ++ first).length + more.length := by
      rw [← htaken, List.length_append]
    simp only [hmore, hlater, htaken, hcount]
    rw [hsplit] at hmeasure ⊢
    apply extendEnvelope_eq_assemble hl hheld (hmeasure.trans hreceived)
    by_cases hover : (held ++ (first ++ more)).length < sizes.overhead.toNat
    · refine .inr ⟨hover, List.eq_nil_of_length_eq_zero ?_⟩
      have hlen := congrArg List.length hbehind
      rw [List.length_append] at hlen
      omega
    · left
      omega

/-- **A step is the decoder on the bytes that were held and those that come.** -/
theorem step_eq_assemble (hl : i.framing.layout.Lawful) {held window : Bytes} {fresh : Bool}
    (hheld : i.framing.decode i.remote held = .ok none) (hne : window ≠ [])
    (hpartial : held = [] → (fresh && !i.allowPartial) = true → i.framing.layout.minimum ≤ window.length) :
    i.step (i.hold held) fresh window = i.assemble held window := by
  by_cases hnil : held = []
  · subst hnil
    rw [hold_nil hl]
    exact begin_eq_assemble hl hne (hpartial rfl)
  obtain hmeasure | ⟨sizes, total, hmeasure, hlt⟩ := Framing.decode_eq_none hheld
  · rw [hold_of_measure_none hmeasure, if_neg hnil]
    apply extendHeader_eq_assemble hl hne hnil
    intro hmin
    have hless := (Framing.measure_eq_none_iff hl held).mp hmeasure
    omega
  · rw [hold_of_measure_some hl hmeasure]
    by_cases hoverhead : sizes.overhead.toNat ≤ held.length
    · rw [if_pos hoverhead]
      have hmeasure' : i.framing.measure (held ++ window) = .ok (some (sizes, total)) := by
        rw [Framing.measure_append_of_ne_none hl held window (by simp [hmeasure]), hmeasure]
      exact extendBody_eq_assemble hl hnil hmeasure' hoverhead (Nat.le_of_lt hlt)
    · rw [if_neg hoverhead]
      refine extendHeader_eq_assemble hl hne hnil fun _ => ⟨sizes, total, hmeasure, ?_⟩
      omega

/-! ### Whole receives -/

/-- The messages given out in a list of events, in order. -/
def messages (events : List Event) : List Message := (events.filterMap (·.delivery?)).map (·.message)

theorem messages_append (events later : List Event) :
    messages (events ++ later) = messages events ++ messages later := by
  rw [messages, List.filterMap_append, List.map_append, messages, messages]

theorem messages_completed (envelope : Envelope) (total : Nat) (payload : Bytes) (owned : Bool) :
    messages (completed envelope total payload owned) = [⟨envelope, payload⟩] := rfl

theorem runFrom_nil (pending : Pending) (fresh : Bool) : i.runFrom pending fresh [] = ⟨.ok (), pending, []⟩ := by
  rw [runFrom]

theorem runFrom_of_error {pending : Pending} {fresh : Bool} {window : Bytes} {e : MessageError} (hne : window ≠ [])
    (h : i.step pending fresh window = .error e) : i.runFrom pending fresh window = ⟨.error e, .idle, []⟩ := by
  obtain ⟨b, bs, rfl⟩ := List.exists_cons_of_ne_nil hne
  rw [runFrom, h]

theorem runFrom_of_step {pending next : Pending} {fresh : Bool} {taken rest : Bytes} {events : List Event}
    (hne : taken ≠ []) (h : i.step pending fresh (taken ++ rest) = .ok ⟨taken.length, next, events⟩) :
    i.runFrom pending fresh (taken ++ rest) =
      { i.runFrom next false rest with events := events ++ (i.runFrom next false rest).events } := by
  obtain ⟨b, bs, rfl⟩ := List.exists_cons_of_ne_nil hne
  rw [List.cons_append] at h ⊢
  rw [runFrom, h]
  simp only [List.length_cons, List.drop_left]

theorem runFrom_of_last_step {pending next : Pending} {fresh : Bool} {window : Bytes} {events : List Event}
    (hne : window ≠ []) (h : i.step pending fresh window = .ok ⟨window.length, next, events⟩) :
    i.runFrom pending fresh window = ⟨.ok (), next, events⟩ := by
  have hall : i.step pending fresh (window ++ []) = .ok ⟨window.length, next, events⟩ := by
    rwa [List.append_nil]
  have hrun := runFrom_of_step hne hall
  rwa [List.append_nil, runFrom_nil, List.append_nil] at hrun

/-- **A receive takes off the messages that the decoder finds**, ends with the decoder's error, and keeps what
the decoder leaves. -/
theorem runFrom_eq (hl : i.framing.layout.Lawful) {held window : Bytes} {fresh : Bool}
    (hheld : i.framing.decode i.remote held = .ok none)
    (hpartial : held = [] → (fresh && !i.allowPartial) = true → i.framing.layout.minimum ≤ window.length) :
    let run := i.runFrom (i.hold held) fresh window
    let u := i.framing.decodeAll i.remote (held ++ window)
    run.result = u.result ∧ messages run.events = u.messages
      ∧ (u.error? = none → run.pending = i.hold u.rest) := by
  -- Along the bytes of the receive: behind a message nothing is held, and the run goes on with what it left.
  induction hlen : window.length using Nat.strongRecOn generalizing held window fresh with
  | _ n ih =>
    by_cases hne : window = []
    · subst hne
      rw [runFrom_nil, List.append_nil, Framing.decodeAll_of_none hheld]
      exact ⟨rfl, rfl, fun _ => rfl⟩
    have hstep := step_eq_assemble hl hheld hne hpartial
    match hdecode : i.framing.decode i.remote (held ++ window) with
    | .error e =>
      simp only [assemble, hdecode] at hstep
      rw [runFrom_of_error hne hstep, Framing.decodeAll_of_error hdecode]
      exact ⟨rfl, rfl, fun h => nomatch h⟩
    | .ok none =>
      simp only [assemble, hdecode] at hstep
      rw [runFrom_of_last_step hne hstep, Framing.decodeAll_of_none hdecode]
      exact ⟨rfl, rfl, fun _ => rfl⟩
    | .ok (some (m, rest)) =>
      obtain ⟨taken, htaken, rfl⟩ := Framing.split_of_decode_append hl hheld hdecode
      simp only [assemble, hdecode, List.length_append, Nat.add_sub_cancel] at hstep
      have hlt : rest.length < n := by
        have hpos := List.length_pos_iff.mpr htaken
        rw [List.length_append] at hlen
        omega
      have hfresh : ([] : Bytes) = [] → (false && !i.allowPartial) = true →
        i.framing.layout.minimum ≤ rest.length :=
        fun _ h => by simp at h
      have hlater := ih rest.length hlt (Framing.decode_nil hl) hfresh rfl
      rw [hold_nil hl, List.nil_append] at hlater
      rw [runFrom_of_step htaken hstep, Framing.decodeAll_of_some hl hdecode]
      simp only [messages_append, messages_completed]
      exact ⟨hlater.1, congrArg ([m] ++ ·) hlater.2.1, hlater.2.2⟩

end Intake

end MessageWire
