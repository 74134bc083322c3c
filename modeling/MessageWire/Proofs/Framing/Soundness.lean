import MessageWire.Proofs.Framing.Assembly
import MessageWire.Proofs.Framing.Operations
/-!
# What an assembler keeps

What an assembler keeps between receives always agrees with the bytes that it keeps (`Pending.Sound`), whatever bytes
come and however the ceiling is moved while a message is on its way. A ceiling that was moved is no obstacle: a step
either is refused or is what the decoder does under some ceiling (`Intake.step_cases`). So a step from a sound state
leads to a sound state (`Intake.sound_of_step`), and so does a receive, and with it every list of operations
(`Assembler.Sound.after`).
-/

namespace MessageWire

/-- What is kept agrees with the bytes that are kept. -/
inductive Pending.Sound (l : Layout) (remote : String) : Pending → Prop
  | idle : Sound l remote .idle
  /-- Bytes of an envelope that is not whole, even where they tell how long it is. -/
  | header {received : Array UInt8} (nonempty : 0 < received.size)
      (short : l.minimum ≤ received.size →
        ∃ sizes, l.sizes? received.toList = some sizes ∧ received.size < sizes.overhead.toNat) :
      Sound l remote (.header received)
  /-- A whole envelope, which is the one that the first bytes tell, and part of the payload. -/
  | body {envelope : Envelope} {received : Array UInt8} {total : Nat}
      (whole : envelope.sizes.overhead.toNat ≤ received.size) (short : received.size < total)
      (total_eq : total = envelope.sizes.overhead.toNat + envelope.sizes.payload.toNat)
      (check : envelope.sizes.check = l.check envelope.sizes.payload)
      (envelope_eq : ∀ ceiling, total ≤ ceiling → (Framing.mk l ceiling).readEnvelope
        (received.toList.take envelope.sizes.overhead.toNat) remote = .ok (some envelope)) :
      Sound l remote (.body envelope received total)

/-- The errors for which an assembler refuses an operation. -/
inductive MessageError.Refusal : MessageError → Prop
  | tooShort (received minimum : Nat) : Refusal (.tooShort received minimum)
  | checkMismatch (payload check expected : UInt32) : Refusal (.checkMismatch payload check expected)
  | overflow (payload overhead : UInt32) : Refusal (.overflow payload overhead)
  | oversized (size max : Nat) : Refusal (.oversized size max)
  | scratchOverrun (offset received capacity : Nat) : Refusal (.scratchOverrun offset received capacity)
  | disposed : Refusal .disposed
  | poisoned : Refusal .poisoned

/-! ### Envelopes that have come whole -/

namespace Framing

variable {f : Framing} {remote : String} {w : Bytes}

theorem refusal_of_measure {e : MessageError} (h : f.measure w = .error e) : e.Refusal := by
  obtain ⟨payload, check, expected, rfl⟩ | ⟨payload, overhead, rfl⟩ | ⟨size, rfl⟩ := measure_eq_error h
  · exact .checkMismatch _ _ _
  · exact .overflow _ _
  · exact .oversized _ _

theorem readEnvelope_eq_some {e : Envelope} (h : f.readEnvelope w remote = .ok (some e)) :
    f.measure w = .ok (some (e.sizes, e.total)) ∧ e.sizes.overhead.toNat ≤ w.length
      ∧ e = f.envelope e.sizes w remote := by
  unfold readEnvelope at h
  match hmeasure : f.measure w with
  | .error e' => simp [hmeasure] at h
  | .ok none => simp [hmeasure] at h
  | .ok (some (sizes, total)) =>
    simp only [hmeasure] at h
    split at h
    case isFalse => cases h
    case isTrue hreach =>
      cases h
      obtain ⟨-, rfl, -⟩ := measure_eq_some hmeasure
      exact ⟨rfl, (reaches_iff _ _).mp hreach, rfl⟩

/-- An envelope that was measured is read from its own bytes, under any ceiling that allows the message. -/
theorem readEnvelope_take (hl : f.layout.Lawful) {sizes : Sizes} {total ceiling : Nat}
    (h : f.measure w = .ok (some (sizes, total))) (hoverhead : sizes.overhead.toNat ≤ w.length)
    (hceiling : total ≤ ceiling) :
    (Framing.mk f.layout ceiling).readEnvelope (w.take sizes.overhead.toNat) remote
      = .ok (some (f.envelope sizes w remote)) := by
  obtain ⟨hsizes, rfl, hcheck, hlt, -⟩ := measure_eq_some h
  have hlen : (w.take sizes.overhead.toNat).length = sizes.overhead.toNat := List.length_take_of_le hoverhead
  have hfront : f.layout.sizes? (w.take sizes.overhead.toNat) = some sizes := by
    have hminimum := hl.minimum_le_overhead w sizes hsizes
    rw [← hl.sizes?_append _ (w.drop sizes.overhead.toNat) (by omega), List.take_append_drop, hsizes]
  have hmeasure := measure_of_sizes? (f := ⟨f.layout, ceiling⟩) hfront hcheck hlt hceiling
  have hreach : reaches sizes.overhead.toNat (w.take sizes.overhead.toNat) = true :=
    (reaches_iff _ _).mpr (Nat.le_of_eq hlen.symm)
  simp only [readEnvelope, hmeasure, hreach, if_true]
  rw [envelope, envelope, List.take_of_length_le (Nat.le_of_eq hlen)]

end Framing

theorem Pending.Sound.minimum_le {l : Layout} {remote : String} {envelope : Envelope} {received : Array UInt8}
    {total : Nat} (hl : l.Lawful) (h : (Pending.body envelope received total).Sound l remote) :
    l.minimum ≤ received.size := by
  cases h with
  | body whole short total_eq check envelope_eq =>
    have hmeasure := (Framing.readEnvelope_eq_some (envelope_eq total (Nat.le_refl _))).1
    have hbounds := Framing.bounds_of_measure (f := ⟨l, total⟩) hl hmeasure
    exact Nat.le_trans hbounds.2.1 whole

theorem Pending.Sound.length_eq_zero_iff {l : Layout} {remote : String} {pending : Pending} (hl : l.Lawful)
    (h : pending.Sound l remote) : pending.length = 0 ↔ pending = .idle := by
  have hpos := hl.minimum_pos
  cases pending with
  | idle => simp [Pending.length]
  | header received =>
    cases h with
    | header nonempty short => simp [Pending.length, Nat.ne_of_gt nonempty]
  | body envelope received total =>
    have hminimum := h.minimum_le hl
    have hsize : received.size ≠ 0 := by omega
    simp [Pending.length, hsize]

namespace Intake

variable {i : Intake} {pending : Pending} {fresh : Bool} {held window : Bytes} {e : MessageError} {advance : Advance}

/-! ### What is kept is sound -/

theorem sound_hold (hl : i.framing.layout.Lawful) (hheld : i.framing.decode i.remote held = .ok none) :
    (i.hold held).Sound i.framing.layout i.remote := by
  by_cases hnil : held = []
  · subst hnil
    rw [hold_nil hl]
    exact .idle
  have hpos : 0 < held.toArray.size := List.length_pos_iff.mpr hnil
  obtain hmeasure | ⟨sizes, total, hmeasure, hlt⟩ := Framing.decode_eq_none hheld
  · rw [hold_of_measure_none hmeasure, if_neg hnil]
    apply Pending.Sound.header hpos
    intro hminimum
    have hshort := (Framing.measure_eq_none_iff hl held).mp hmeasure
    exact absurd hminimum (Nat.not_le_of_lt hshort)
  · obtain ⟨hsizes, htotal, hcheck, -⟩ := Framing.measure_eq_some hmeasure
    rw [hold_of_measure_some hl hmeasure]
    split
    case isTrue hoverhead =>
      exact .body hoverhead hlt htotal hcheck fun _ hle => Framing.readEnvelope_take hl hmeasure hoverhead hle
    case isFalse hoverhead => exact .header hpos fun _ => ⟨sizes, hsizes, Nat.lt_of_not_le hoverhead⟩

/-- A message takes at least a byte of the window; one that is not complete takes all of it. -/
theorem sound_of_assemble (hl : i.framing.layout.Lawful) (hheld : i.framing.decode i.remote held = .ok none)
    (hne : window ≠ []) (h : i.assemble held window = .ok advance) :
    0 < advance.consumed ∧ advance.consumed ≤ window.length
      ∧ advance.pending.Sound i.framing.layout i.remote := by
  unfold assemble at h
  match hdecode : i.framing.decode i.remote (held ++ window) with
  | .error e => simp [hdecode] at h
  | .ok none =>
    simp only [hdecode] at h
    cases h
    exact ⟨List.length_pos_iff.mpr hne, Nat.le_refl _, sound_hold hl hdecode⟩
  | .ok (some (m, rest)) =>
    simp only [hdecode] at h
    cases h
    obtain ⟨taken, htaken, rfl⟩ := Framing.split_of_decode_append hl hheld hdecode
    have hpos := List.length_pos_iff.mpr htaken
    simp only [List.length_append, Nat.add_sub_cancel]
    exact ⟨hpos, Nat.le_add_right _ _, .idle⟩

theorem refusal_of_assemble (h : i.assemble held window = .error e) : e.Refusal := by
  unfold assemble at h
  split at h
  case h_1 hdecode =>
    cases h
    exact Framing.refusal_of_measure (Framing.measure_of_decode_error hdecode)
  case h_2 => cases h
  case h_3 => cases h

/-! ### Steps from sound states -/

def allowing (i : Intake) (ceiling : Nat) : Intake := { i with framing := { i.framing with ceiling } }

theorem begin_of_short (hl : i.framing.layout.Lawful) (hfresh : (fresh && !i.allowPartial) = true)
    (h : window.length < i.framing.layout.minimum) :
    i.begin fresh window = .error (.tooShort window.length i.framing.layout.minimum) := by
  rw [begin, (Framing.measure_eq_none_iff hl window).mpr h]
  simp only [hfresh, if_true]

/-- An envelope that tells its sizes is measured again under the ceiling in force. -/
theorem extendHeader_of_measure_error (hl : i.framing.layout.Lawful) (h : i.framing.measure held = .error e) :
    i.extendHeader held.toArray window = .error e := by
  have hagain (first : Bytes) : i.framing.measure (held ++ first) = .error e := by
    rw [Framing.measure_append_of_ne_none hl held first (by simp [h]), h]
  rw [extendHeader]
  simp only [appendList_toArray, hagain]

/-- What is known of a body is measured again under its own size as the ceiling. -/
theorem measure_of_body {envelope : Envelope} {received : Array UInt8} {total : Nat}
    (hl : i.framing.layout.Lawful) (h : (Pending.body envelope received total).Sound i.framing.layout i.remote)
    (more : Bytes) :
    (i.allowing total).framing.measure (received.toList ++ more) = .ok (some (envelope.sizes, total))
      ∧ (i.allowing total).framing.envelope envelope.sizes received.toList i.remote = envelope := by
  cases h with
  | body whole short total_eq check envelope_eq =>
    obtain ⟨hmeasure, hle, henvelope⟩ := Framing.readEnvelope_eq_some (envelope_eq total (Nat.le_refl _))
    have hsplit := List.take_append_drop envelope.sizes.overhead.toNat received.toList
    have htotal : envelope.total = total := total_eq.symm
    rw [htotal] at hmeasure
    constructor
    · have happend := Framing.measure_append_of_ne_none (f := (i.allowing total).framing) hl
        (received.toList.take envelope.sizes.overhead.toNat)
        (received.toList.drop envelope.sizes.overhead.toNat ++ more) (by simp [allowing, hmeasure])
      rw [← List.append_assoc, hsplit] at happend
      exact happend.trans hmeasure
    · have hfront := henvelope.trans
        (Framing.envelope_append _ _ (received.toList.drop envelope.sizes.overhead.toNat) hle).symm
      rw [hsplit] at hfront
      exact hfront.symm

/-- The step is what the decoder does under some ceiling, with `held` before the window. -/
def Decodes (i : Intake) (held window : Bytes) (result : Except MessageError Advance) : Prop :=
  ∃ ceiling, (i.allowing ceiling).framing.decode i.remote held = .ok none
    ∧ result = (i.allowing ceiling).assemble held window

theorem decodes_extendHeader {received : Array UInt8} (hl : i.framing.layout.Lawful)
    (h : (Pending.header received).Sound i.framing.layout i.remote) (hne : window ≠ [])
    (hmeasure : ∀ e, i.framing.measure received.toList ≠ .error e) :
    i.Decodes received.toList window (i.extendHeader received window) := by
  cases h with
  | header nonempty short =>
  have hnil : received.toList ≠ [] := List.length_pos_iff.mp nonempty
  match hreceived : i.framing.measure received.toList with
  | .error e => exact absurd hreceived (hmeasure e)
  | .ok none =>
    refine ⟨i.framing.ceiling, Framing.decode_of_measure_none hreceived, ?_⟩
    apply extendHeader_eq_assemble hl hne hnil
    intro hminimum
    exact absurd hminimum (Nat.not_le_of_lt ((Framing.measure_eq_none_iff hl _).mp hreceived))
  | .ok (some (sizes, total)) =>
    obtain ⟨hminimum, -, htotal⟩ := Framing.bounds_of_measure hl hreceived
    obtain ⟨sizes', hsizes', hlt⟩ := short hminimum
    have hsizes := (Framing.measure_eq_some hreceived).1
    obtain rfl := Option.some.inj (hsizes'.symm.trans hsizes)
    have hincomplete : ¬ total ≤ received.toList.length := Nat.not_le_of_lt (Nat.lt_of_lt_of_le hlt htotal)
    refine ⟨i.framing.ceiling, ?_, extendHeader_eq_assemble hl hne hnil fun _ => ⟨_, _, hreceived, hlt⟩⟩
    exact (Framing.decode_of_measure_some hreceived).trans (if_neg hincomplete)

theorem decodes_extendBody {envelope : Envelope} {received : Array UInt8} {total : Nat}
    (hl : i.framing.layout.Lawful) (h : (Pending.body envelope received total).Sound i.framing.layout i.remote) :
    i.Decodes received.toList window (extendBody envelope received total window) := by
  obtain ⟨hmeasure, henvelope⟩ := measure_of_body hl h window
  have hheld := (measure_of_body hl h []).1
  rw [List.append_nil] at hheld
  have hnil : received.toList ≠ [] := List.length_pos_iff.mp (Nat.lt_of_lt_of_le hl.minimum_pos (h.minimum_le hl))
  cases h with
  | body whole short total_eq check envelope_eq =>
  refine ⟨total, ?_, ?_⟩
  · exact (Framing.decode_of_measure_some hheld).trans (if_neg (Nat.not_le_of_lt short))
  · have hstep := extendBody_eq_assemble (i := i.allowing total) hl hnil hmeasure whole (Nat.le_of_lt short)
    exact (congrArg (extendBody · received total window) henvelope.symm).trans hstep

/-- A step from a sound state is refused, or is what the decoder does. -/
theorem step_cases (hl : i.framing.layout.Lawful) (h : pending.Sound i.framing.layout i.remote)
    (hne : window ≠ []) (fresh : Bool) :
    (∃ e : MessageError, e.Refusal ∧ i.step pending fresh window = .error e)
      ∨ i.Decodes pending.bytes window (i.step pending fresh window) := by
  cases pending with
  | idle =>
    by_cases hshort : (fresh && !i.allowPartial) = true ∧ window.length < i.framing.layout.minimum
    · exact .inl ⟨_, .tooShort _ _, begin_of_short hl hshort.1 hshort.2⟩
    · refine .inr ⟨i.framing.ceiling, Framing.decode_nil hl, begin_eq_assemble hl hne fun hfresh => ?_⟩
      exact Nat.le_of_not_lt fun hlt => hshort ⟨hfresh, hlt⟩
  | header received =>
    -- The ceiling may have been lowered since the sizes came.
    by_cases hmeasure : ∃ e, i.framing.measure received.toList = .error e
    · obtain ⟨e, hmeasure⟩ := hmeasure
      exact .inl ⟨e, Framing.refusal_of_measure hmeasure, extendHeader_of_measure_error hl hmeasure⟩
    · exact .inr (decodes_extendHeader hl h hne fun e he => hmeasure ⟨e, he⟩)
  | body envelope received total => exact .inr (decodes_extendBody hl h)

/-- **A step from a sound state leads to a sound state**, and takes in at least a byte and at most those there are. -/
theorem sound_of_step (hl : i.framing.layout.Lawful) (h : pending.Sound i.framing.layout i.remote)
    (hne : window ≠ []) (hstep : i.step pending fresh window = .ok advance) :
    0 < advance.consumed ∧ advance.consumed ≤ window.length
      ∧ advance.pending.Sound i.framing.layout i.remote := by
  obtain ⟨e, -, herror⟩ | ⟨ceiling, hheld, hassemble⟩ := step_cases hl h hne fresh
  · rw [hstep] at herror
    cases herror
  · exact sound_of_assemble (i := i.allowing ceiling) hl hheld hne (hassemble.symm.trans hstep)

theorem refusal_of_step (hl : i.framing.layout.Lawful) (h : pending.Sound i.framing.layout i.remote)
    (hne : window ≠ []) (hstep : i.step pending fresh window = .error e) : e.Refusal := by
  obtain ⟨e', hrefusal, herror⟩ | ⟨ceiling, -, hassemble⟩ := step_cases hl h hne fresh
  · rw [hstep] at herror
    cases herror
    exact hrefusal
  · exact refusal_of_assemble (hassemble.symm.trans hstep)

/-! ### Whole receives -/

/-- The states between the steps of a receive: what is pending there, whether it is the first step, and the bytes
still to be taken in. -/
inductive Visits (i : Intake) (pending : Pending) (window : Bytes) : Pending → Bool → Bytes → Prop
  | first : Visits i pending window pending true window
  | next {pending' : Pending} {fresh : Bool} {rest : Bytes} {advance : Advance}
      (before : Visits i pending window pending' fresh rest) (nonempty : rest ≠ [])
      (step : i.step pending' fresh rest = .ok advance) :
      Visits i pending window advance.pending false (rest.drop advance.consumed)

theorem sound_of_visits {next : Pending} {rest : Bytes} (hl : i.framing.layout.Lawful)
    (h : pending.Sound i.framing.layout i.remote) (hvisits : i.Visits pending window next fresh rest) :
    next.Sound i.framing.layout i.remote := by
  induction hvisits with
  | first => exact h
  | next before nonempty step ih => exact (sound_of_step hl ih nonempty step).2.2

/-- A receive is refused or leads from a sound state to a sound state. -/
theorem sound_of_runFrom (hl : i.framing.layout.Lawful) (h : pending.Sound i.framing.layout i.remote)
    (fresh : Bool) (window : Bytes) :
    (i.runFrom pending fresh window).pending.Sound i.framing.layout i.remote
      ∧ ∀ e, (i.runFrom pending fresh window).result = .error e → e.Refusal := by
  fun_induction runFrom i pending fresh window with
  | case1 => exact ⟨h, fun e he => nomatch he⟩
  | case2 pending fresh b bs e hstep =>
    refine ⟨.idle, fun e' he => ?_⟩
    cases he
    exact refusal_of_step hl h (List.cons_ne_nil _ _) hstep
  | case3 pending fresh b bs kept events hstep =>
    have hpos := (sound_of_step hl h (List.cons_ne_nil _ _) hstep).1
    exact absurd hpos (Nat.lt_irrefl 0)
  | case4 pending fresh b bs n next events hstep later ih =>
    exact ih (sound_of_step hl h (List.cons_ne_nil _ _) hstep).2.2

theorem sound_of_run (hl : i.framing.layout.Lawful) (h : pending.Sound i.framing.layout i.remote) (window : Bytes) :
    (i.run pending window).pending.Sound i.framing.layout i.remote
      ∧ ∀ e, (i.run pending window).result = .error e → e.Refusal := by
  unfold run
  split
  case h_1 =>
    refine ⟨.idle, fun e he => ?_⟩
    cases he
    exact .tooShort _ _
  case h_2 => exact sound_of_runFrom hl h true window

end Intake

/-! ### Assemblers -/

namespace Assembler

variable {a : Assembler} {l : Layout} {remote : String}

/-- An assembler of a peer's messages that is in a sound state, and keeps nothing once its buffer is gone. -/
structure Sound (l : Layout) (remote : String) (a : Assembler) : Prop where
  layout_eq : a.layout = l
  remote_eq : a.remote = remote
  pending : a.pending.Sound l remote
  ready : a.pending ≠ .idle → ∃ scratch, a.storage = .ready scratch

theorem sound_of_idle (hlayout : a.layout = l) (hremote : a.remote = remote) (hidle : a.pending = .idle) :
    a.Sound l remote := by
  refine ⟨hlayout, hremote, ?_, fun hne => absurd hidle hne⟩
  rw [hidle]
  exact .idle

theorem sound_ofSettings (l : Layout) (remote : String) (settings : AssemblerSettings) :
    (ofSettings l remote settings).Sound l remote := sound_of_idle rfl rfl rfl

theorem Sound.run (h : a.Sound l remote) (hl : l.Lawful) (window : Bytes) :
    (a.intake.run a.pending window).pending.Sound l remote
      ∧ ∀ e, (a.intake.run a.pending window).result = .error e → e.Refusal := by
  obtain ⟨rfl, rfl, hpending, -⟩ := h
  exact Intake.sound_of_run (i := a.intake) hl hpending window

theorem Sound.load (h : a.Sound l remote) {a' : Assembler} {offset : Nat} {data : Bytes}
    (hload : a.load offset data = .ok a') : a'.Sound l remote := by
  unfold Assembler.load at hload
  cases hscratch : a.scratch with
  | error e => simp [hscratch, Except.map] at hload
  | ok scratch =>
    simp only [hscratch, Except.map, Except.ok.injEq] at hload
    subst hload
    exact ⟨h.layout_eq, h.remote_eq, h.pending, fun _ => ⟨_, rfl⟩⟩

theorem storage_of_scratch {scratch : Scratch} (h : a.scratch = .ok scratch) : a.storage = .ready scratch := by
  unfold Assembler.scratch at h
  split at h
  case h_1 hstorage =>
    cases h
    exact hstorage
  case h_2 => cases h
  case h_3 => cases h

theorem Sound.afterRun (h : a.Sound l remote) {scratch : Scratch} (hstorage : a.storage = .ready scratch)
    {run : Intake.Run} (hrun : run.pending.Sound l remote) : (a.afterRun run).Sound l remote := by
  unfold Assembler.afterRun
  split
  case h_1 =>
    split
    all_goals exact sound_of_idle h.layout_eq h.remote_eq rfl
  case h_2 => exact ⟨h.layout_eq, h.remote_eq, hrun, fun _ => ⟨scratch, hstorage⟩⟩

theorem Sound.processAt (h : a.Sound l remote) (hl : l.Lawful) (offset received : Nat) :
    (a.processAt offset received).assembler.Sound l remote := by
  unfold Assembler.processAt
  cases hscratch : a.scratch with
  | error e => exact h
  | ok scratch =>
    simp only
    split
    case isTrue => exact h
    case isFalse => exact h.afterRun (storage_of_scratch hscratch) (h.run hl _).1

theorem Sound.reset (h : a.Sound l remote) : a.reset.assembler.Sound l remote := by
  unfold Assembler.reset
  split
  · exact h
  · exact sound_of_idle h.layout_eq h.remote_eq rfl

theorem Sound.dispose (h : a.Sound l remote) : a.dispose.Sound l remote := by
  unfold Assembler.dispose
  split
  · exact h
  · exact sound_of_idle h.layout_eq h.remote_eq rfl

/-- A ceiling may be moved at any time, also while a message is on its way. -/
theorem Sound.setMaxMessageSize (h : a.Sound l remote) (max : Nat) : (a.setMaxMessageSize max).Sound l remote :=
  ⟨h.layout_eq, h.remote_eq, h.pending, h.ready⟩

theorem Sound.observe (h : a.Sound l remote) (observed : Bool) : (a.observe observed).Sound l remote :=
  ⟨h.layout_eq, h.remote_eq, h.pending, h.ready⟩

theorem Sound.after (h : a.Sound l remote) (hl : l.Lawful) (ops : List Operation) : (a.after ops).Sound l remote :=
  after_induction (fun _ _ _ _ hload h => h.load hload) (fun _ offset received h => h.processAt hl offset received)
    (fun _ h => h.reset) (fun _ h => h.dispose) (fun _ max h => h.setMaxMessageSize max)
    (fun _ observed h => h.observe observed) ops a h

theorem refusal_of_scratch {e : MessageError} (h : a.scratch = .error e) : e.Refusal := by
  unfold Assembler.scratch at h
  split at h
  · cases h
  · cases h
    exact .poisoned
  · cases h
    exact .disposed

theorem refusal_of_load {offset : Nat} {data : Bytes} {e : MessageError} (h : a.load offset data = .error e) :
    e.Refusal := by
  unfold Assembler.load at h
  cases hscratch : a.scratch with
  | error e' =>
    simp only [hscratch, Except.map, Except.error.injEq] at h
    exact h ▸ refusal_of_scratch hscratch
  | ok scratch => simp [hscratch, Except.map] at h

theorem Sound.refusal_of_processAt (h : a.Sound l remote) (hl : l.Lawful) {offset received : Nat} {e : MessageError}
    (he : (a.processAt offset received).result = .error e) : e.Refusal := by
  unfold Assembler.processAt at he
  cases hscratch : a.scratch with
  | error e' =>
    simp only [hscratch] at he
    cases he
    exact refusal_of_scratch hscratch
  | ok scratch =>
    simp only [hscratch] at he
    split at he
    case isTrue =>
      cases he
      exact .scratchOverrun _ _ _
    case isFalse => exact (h.run hl _).2 e he

theorem Sound.receive (h : a.Sound l remote) (hl : l.Lawful) (data : Bytes) :
    (a.receive data).assembler.Sound l remote :=
  receive_induction (fun _ _ _ _ hload h => h.load hload) (fun _ offset received h => h.processAt hl offset received)
    a data h

theorem Sound.refusal_of_receive (h : a.Sound l remote) (hl : l.Lawful) {data : Bytes} {e : MessageError}
    (he : (a.receive data).result = .error e) : e.Refusal := by
  unfold Assembler.receive at he
  split at he
  case h_1 e' hload =>
    cases he
    exact refusal_of_load hload
  case h_2 a' hload => exact (h.load hload).refusal_of_processAt hl he

theorem Sound.refusal_of_feed (h : a.Sound l remote) (hl : l.Lawful) {data : Bytes} {e : MessageError}
    (he : (a.feed data).result = .error e) : e.Refusal := by
  unfold Assembler.feed at he
  split at he
  case h_1 e' hscratch =>
    cases he
    exact refusal_of_scratch hscratch
  case h_2 scratch hscratch =>
    clear hscratch
    generalize receives scratch.capacity data = pieces at he
    induction pieces generalizing a with
    | nil => cases he
    | cons piece pieces ih =>
      rw [receiveAll] at he
      split at he
      case h_1 => exact h.refusal_of_receive hl he
      case h_2 => exact ih (h.receive hl piece) he

theorem Sound.refusal_of_perform (h : a.Sound l remote) (hl : l.Lawful) {op : Operation} {e : MessageError}
    (he : (a.perform op).result = .error e) : e.Refusal := by
  cases op with
  | load offset data =>
    rw [perform] at he
    cases hload : a.load offset data with
    | error e' =>
      simp only [hload] at he
      cases he
      exact refusal_of_load hload
    | ok a' => simp [hload] at he
  | processAt offset received => exact h.refusal_of_processAt hl he
  | feed data => exact h.refusal_of_feed hl he
  | reset =>
    rw [perform, Assembler.reset] at he
    split at he <;> cases he
  | dispose => cases he
  | setMaxMessageSize max => cases he
  | observe observed => cases he

theorem Sound.total?_isSome_iff (h : a.Sound l remote) : a.pending.total?.isSome ↔ a.state = .awaitingBody := by
  cases hpending : a.pending with
  | idle =>
    simp only [state, hpending]
    cases a.storage <;> simp [Pending.total?]
  | header received =>
    obtain ⟨scratch, hstorage⟩ := h.ready (by simp [hpending])
    simp [state, hpending, hstorage, Pending.total?]
  | body envelope received total =>
    obtain ⟨scratch, hstorage⟩ := h.ready (by simp [hpending])
    simp [state, hpending, hstorage, Pending.total?]

theorem Sound.length_lt_total (h : a.Sound l remote) {total : Nat} (htotal : a.pending.total? = some total) :
    a.pending.length < total := by
  have hpending := h.pending
  generalize a.pending = pending at htotal hpending ⊢
  cases hpending with
  | idle => cases htotal
  | header nonempty short => cases htotal
  | body whole short total_eq check envelope_eq =>
    cases htotal
    exact short

end Assembler

end MessageWire
