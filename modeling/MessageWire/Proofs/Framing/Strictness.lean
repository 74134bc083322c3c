import MessageWire.Proofs.Framing.Insertion
import MessageWire.Proofs.Framing.Ownership
/-!
# Strict and lenient assemblers

An assembler may be told to refuse a receive that starts a message with less than the fixed part of an envelope. Nothing
else depends on that (`Intake.runFrom_withPartial`): not what is done with the bytes behind a message in the same
receive, and not what is done with an envelope whose fixed part has come. So a strict assembler and a lenient one do the
same until such a receive comes, and there the one refuses what the other keeps
(`Assembler.strict_eq_lenient_until_short`).
-/

namespace MessageWire

/-- The rules with short first receives allowed or not. -/
def Intake.withPartial (i : Intake) (allowed : Bool) : Intake := { i with allowPartial := allowed }

namespace Assembler

/-- The assembler with short first receives allowed or not. -/
def withPartial (a : Assembler) (allowed : Bool) : Assembler :=
  { a with settings := { a.settings with allowPartial := allowed } }

/-- A receive that starts a message, and has less than the fixed part of an envelope. -/
def StartsShort (a : Assembler) (offset received : Nat) : Prop :=
  a.pending = .idle ∧ (0 < received ∧ received < a.layout.minimum)
    ∧ ∃ scratch, a.storage = .ready scratch ∧ offset + received ≤ scratch.capacity

/-- None of some receives starts a message with less than the fixed part of an envelope. -/
def NeverShort (a : Assembler) : List (Nat × Bytes) → Prop
  | [] => True
  | (offset, data) :: rest =>
    ¬ a.StartsShort offset data.length ∧ (a.receiveAt offset data).assembler.NeverShort rest

end Assembler

def Reaction.withPartial (r : Reaction) (allowed : Bool) : Reaction :=
  { r with assembler := r.assembler.withPartial allowed }

/-! ### Where strictness is asked for -/

namespace Intake

variable {i : Intake} {pending : Pending} {fresh : Bool} {window : Bytes}

/-- Only the first step of a receive that finds nothing pending asks for strictness, and only of a window that does not
hold the fixed part. -/
theorem step_withPartial (allowed : Bool)
    (h : pending = .idle → fresh = true → i.framing.measure window ≠ .ok none) :
    (i.withPartial allowed).step pending fresh window = i.step pending fresh window := by
  cases pending with
  | header received => rfl
  | body envelope received total => rfl
  | idle =>
    obtain ⟨framing, remote, allowPartial⟩ := i
    simp only [withPartial, step, begin]
    rcases hmeasure : framing.measure window with e | _ | ⟨sizes, total⟩
    case error => rfl
    case ok.some => rfl
    case ok.none =>
      have hfresh : fresh = false := by
        cases fresh with
        | false => rfl
        | true => exact absurd hmeasure (h rfl rfl)
      subst hfresh
      rfl

theorem runFrom_withPartial (allowed : Bool)
    (h : pending = .idle → fresh = true → window ≠ [] → i.framing.measure window ≠ .ok none) :
    (i.withPartial allowed).runFrom pending fresh window = i.runFrom pending fresh window := by
  -- Behind the first step no receive is fresh any more.
  fun_induction runFrom i pending fresh window with
  | case1 pending fresh => exact runFrom_nil _ _
  | case2 pending fresh b bs e hstep =>
    have hsame := step_withPartial allowed fun hidle hfresh => h hidle hfresh (List.cons_ne_nil b bs)
    exact runFrom_of_error (List.cons_ne_nil _ _) (hsame.trans hstep)
  | case3 pending fresh b bs kept events hstep =>
    have hsame := step_withPartial allowed fun hidle hfresh => h hidle hfresh (List.cons_ne_nil b bs)
    rw [runFrom, hsame, hstep]
  | case4 pending fresh b bs n next events hstep later ih =>
    have hsame := step_withPartial allowed fun hidle hfresh => h hidle hfresh (List.cons_ne_nil b bs)
    rw [runFrom, hsame, hstep]
    simp only [ih fun _ hfresh => Bool.noConfusion hfresh, later]

theorem run_withPartial (hl : i.framing.layout.Lawful) (allowed : Bool)
    (h : pending = .idle → window = [] ∨ i.framing.layout.minimum ≤ window.length) :
    (i.withPartial allowed).run pending window = i.run pending window := by
  have hfrom : (i.withPartial allowed).runFrom pending true window = i.runFrom pending true window := by
    refine runFrom_withPartial allowed fun hidle _ hne hnone => ?_
    have hshort := (Framing.measure_eq_none_iff hl window).mp hnone
    rcases h hidle with hnil | hlong
    · exact hne hnil
    · omega
  unfold run
  split
  · rfl
  · exact hfrom

/-! ### What is kept of an envelope -/

/-- An envelope that is not whole is kept, unless a strict receive starts with less than its fixed part. -/
theorem runFrom_of_partial_envelope (hl : i.framing.layout.Lawful) (hne : window ≠ [])
    (hincomplete : i.framing.readEnvelope window i.remote = .ok none)
    (fresh : Bool) (hlong : (fresh && !i.allowPartial) = true → i.framing.layout.minimum ≤ window.length) :
    i.runFrom .idle fresh window = ⟨.ok (), .header window.toArray, [.progress ⟨none, window.length, 0⟩]⟩ := by
  have hnone : i.framing.decode i.remote window = .ok none := by
    rw [Framing.readEnvelope] at hincomplete
    rcases hmeasure : i.framing.measure window with e | _ | ⟨sizes, total⟩
    case error => simp [hmeasure] at hincomplete
    case ok.none => exact Framing.decode_of_measure_none hmeasure
    case ok.some =>
      have htotal := (Framing.bounds_of_measure hl hmeasure).2.2
      simp only [hmeasure, reaches_iff] at hincomplete
      have hshort : ¬ sizes.overhead.toNat ≤ window.length := by
        intro hwhole
        rw [if_pos hwhole] at hincomplete
        cases hincomplete
      exact (Framing.decode_of_measure_some hmeasure).trans (if_neg (by omega))
  have hkept : i.hold window = .header window.toArray := by
    rw [hold, hincomplete]
    exact if_neg hne
  have hstep : i.step .idle fresh window
      = .ok ⟨window.length, .header window.toArray, [.progress ⟨none, window.length, 0⟩]⟩ := by
    have hassemble := begin_eq_assemble hl hne hlong
    rw [assemble, List.nil_append, hnone] at hassemble
    simp only [hkept] at hassemble
    exact hassemble
  exact runFrom_of_last_step hne hstep

/-- A run ends as it does from any of the states between its steps. -/
theorem runFrom_of_visits (hl : i.framing.layout.Lawful) (hpending : pending.Sound i.framing.layout i.remote)
    {next : Pending} {rest : Bytes} (h : i.Visits pending window next fresh rest) :
    (i.runFrom pending true window).result = (i.runFrom next fresh rest).result
      ∧ (i.runFrom pending true window).pending = (i.runFrom next fresh rest).pending := by
  induction h with
  | first => exact ⟨rfl, rfl⟩
  | @next next fresh rest advance before nonempty step ih =>
    obtain ⟨hpos, hle, -⟩ := sound_of_step hl (sound_of_visits hl hpending before) nonempty step
    have hsplit : rest.take advance.consumed ++ rest.drop advance.consumed = rest := List.take_append_drop _ _
    have htaken : (rest.take advance.consumed).length = advance.consumed := List.length_take_of_le hle
    have hne : rest.take advance.consumed ≠ [] := List.length_pos_iff.mp (by omega)
    have hrun : i.runFrom next fresh (rest.take advance.consumed ++ rest.drop advance.consumed) = _ :=
      runFrom_of_step hne (by rw [hsplit, htaken, step])
    rw [hsplit] at hrun
    rw [ih.1, ih.2, hrun]
    exact ⟨rfl, rfl⟩

theorem ne_nil_of_visits {next : Pending} {rest : Bytes} (h : i.Visits pending window next fresh rest)
    (hne : rest ≠ []) : window ≠ [] := by
  induction h with
  | first => exact hne
  | next before nonempty step ih => exact ih nonempty

/-- A receive that starts a message with less than the fixed part has one step. -/
theorem visits_of_short (hl : i.framing.layout.Lawful) (hshort : window.length < i.framing.layout.minimum)
    {next : Pending} {rest : Bytes} (h : i.Visits .idle window next fresh rest) :
    fresh = true ∧ next = .idle ∧ rest = window ∨ rest = [] := by
  induction h with
  | first => exact .inl ⟨rfl, rfl, rfl⟩
  | @next next fresh rest advance before nonempty hstep ih =>
    obtain ⟨-, rfl, rfl⟩ := ih.resolve_right nonempty
    rw [step, begin, (Framing.measure_eq_none_iff hl rest).mpr hshort] at hstep
    simp only at hstep
    split at hstep
    · cases hstep
    · cases hstep
      exact .inr List.drop_length

end Intake

/-! ### Receives -/

namespace Assembler

variable {a : Assembler} {remote : String} {offset received : Nat} {data : Bytes}

theorem load_withPartial (a : Assembler) (allowed : Bool) (offset : Nat) (data : Bytes) :
    (a.withPartial allowed).load offset data = (a.load offset data).map (·.withPartial allowed) := by
  have hscratch : (a.withPartial allowed).scratch = a.scratch := rfl
  rw [load, load, hscratch]
  cases a.scratch <;> rfl

theorem afterRun_withPartial (a : Assembler) (allowed : Bool) (run : Intake.Run) :
    (a.withPartial allowed).afterRun run = (a.afterRun run).withPartial allowed := by
  unfold afterRun
  split
  · split <;> rfl
  · rfl

theorem length_window (s : Scratch) (offset count : Nat) : (s.window offset count).length = count := by
  rw [Scratch.window_eq, List.length_map, List.length_range]

theorem processAt_withPartial (hl : a.layout.Lawful) (allowed : Bool) (h : ¬ a.StartsShort offset received) :
    (a.withPartial allowed).processAt offset received = (a.processAt offset received).withPartial allowed := by
  have hscratch' : (a.withPartial allowed).scratch = a.scratch := rfl
  unfold processAt
  rw [hscratch']
  cases hscratch : a.scratch with
  | error e => rfl
  | ok scratch =>
    simp only
    split
    case isTrue => rfl
    case isFalse hroom =>
      have hrun : (a.withPartial allowed).intake.run a.pending (scratch.window offset received)
          = a.intake.run a.pending (scratch.window offset received) := by
        refine Intake.run_withPartial (i := a.intake) hl allowed fun hidle => ?_
        rw [← List.length_eq_zero_iff, length_window]
        by_contra hshort
        refine h ⟨hidle, ?_, scratch, storage_of_scratch hscratch, Nat.le_of_not_lt hroom⟩
        change ¬ (received = 0 ∨ a.layout.minimum ≤ received) at hshort
        omega
      have hpending : (a.withPartial allowed).pending = a.pending := rfl
      rw [hpending, hrun, afterRun_withPartial]
      rfl

/-- Bytes that are put into the scratch buffer change nothing of how a receive starts. -/
theorem processAt_of_load_withPartial {a' : Assembler} (hl : a.layout.Lawful) (hload : a.load offset data = .ok a')
    (allowed : Bool) (h : ¬ a.StartsShort offset received) :
    (a'.withPartial allowed).processAt offset received = (a'.processAt offset received).withPartial allowed := by
  obtain ⟨scratch, hstorage, rfl⟩ := load_eq_ok hload
  refine processAt_withPartial (a := { a with storage := .ready (scratch.put offset data) }) hl allowed
    fun hshort => h ?_
  obtain ⟨hidle, hcount, scratch', hscratch, hroom⟩ := hshort
  cases hscratch
  rw [Scratch.capacity_put] at hroom
  exact ⟨hidle, hcount, scratch, hstorage, hroom⟩

theorem receiveAt_withPartial (hl : a.layout.Lawful) (allowed : Bool) (h : ¬ a.StartsShort offset data.length) :
    (a.withPartial allowed).receiveAt offset data = (a.receiveAt offset data).withPartial allowed := by
  rw [receiveAt, receiveAt, load_withPartial]
  cases hload : a.load offset data with
  | error e => rfl
  | ok a' => exact processAt_of_load_withPartial hl hload allowed h

theorem receiving_withPartial (hl : a.layout.Lawful) (allowed : Bool) (h : ¬ a.StartsShort offset data.length) :
    let calls := Operation.receiving (offset, data)
    (a.withPartial allowed).reactions calls = (a.reactions calls).map (·.withPartial allowed)
      ∧ (a.withPartial allowed).after calls = (a.after calls).withPartial allowed := by
  simp only [Operation.receiving, reactions, after, perform, load_withPartial]
  cases hload : a.load offset data with
  | error e =>
    have hprocess := processAt_withPartial hl allowed h
    exact ⟨congrArg (fun r => [_, r]) hprocess, congrArg (·.assembler) hprocess⟩
  | ok a' =>
    have hprocess := processAt_of_load_withPartial hl hload allowed h
    exact ⟨congrArg (fun r => [_, r]) hprocess, congrArg (·.assembler) hprocess⟩

/-- **Receives none of which starts a message with less than the fixed part find no difference.** -/
theorem NeverShort.receives_withPartial {receives : List (Nat × Bytes)} (h : a.NeverShort receives)
    (hsound : a.Sound .standard remote) (allowed : Bool) :
    let calls := receives.flatMap Operation.receiving
    (a.withPartial allowed).reactions calls = (a.reactions calls).map (·.withPartial allowed)
      ∧ (a.withPartial allowed).after calls = (a.after calls).withPartial allowed := by
  induction receives generalizing a with
  | nil => exact ⟨rfl, rfl⟩
  | cons receive rest ih =>
    obtain ⟨offset, data⟩ := receive
    obtain ⟨hfirst, hrest⟩ := h
    have hl : a.layout.Lawful := hsound.layout_eq ▸ Layout.standard_lawful
    rw [(a.receiveAt_eq_perform (offset, data) []).1] at hrest
    obtain ⟨hreactions, hafter⟩ := receiving_withPartial hl allowed hfirst
    obtain ⟨hreactions', hafter'⟩ := ih hrest (hsound.after Layout.standard_lawful _)
    simp only [List.flatMap_cons, reactions_append, after_append, List.map_append, hreactions, hafter, hreactions',
      hafter', and_self]

/-! ### The receive that makes the difference -/

theorem StartsShort.receiveAt_of_strict (h : a.StartsShort offset data.length) (hl : a.layout.Lawful)
    (hstrict : a.settings.allowPartial = false) :
    let r := a.receiveAt offset data
    r.result = .error (.tooShort data.length a.layout.minimum) ∧ r.deliveries = [] ∧ r.assembler.state = .idle := by
  obtain ⟨hidle, ⟨hpos, hshort⟩, scratch, hstorage, hroom⟩ := h
  have hne : data ≠ [] := List.length_pos_iff.mp hpos
  have hrun : a.intake.runFrom a.pending true data
      = ⟨.error (.tooShort data.length a.layout.minimum), .idle, []⟩ := by
    refine Intake.runFrom_of_error hne ?_
    rw [hidle]
    exact Intake.begin_of_short (i := a.intake) hl (by rw [intake, hstrict]; rfl) hshort
  rw [receiveAt_eq hstorage hne hroom, hrun]
  exact ⟨rfl, deliveries_heard a [.progress .cleared], rfl⟩

theorem StartsShort.receiveAt_of_lenient (h : a.StartsShort offset data.length) (hl : a.layout.Lawful)
    (hlenient : a.settings.allowPartial = true) :
    let r := a.receiveAt offset data
    r.result = .ok () ∧ r.deliveries = [] ∧ r.assembler.state = .awaitingHeader
      ∧ r.assembler.pending.bytes = data := by
  obtain ⟨hidle, ⟨hpos, hshort⟩, scratch, hstorage, hroom⟩ := h
  have hne : data ≠ [] := List.length_pos_iff.mp hpos
  have hincomplete : a.framing.readEnvelope data a.remote = .ok none := by
    rw [Framing.readEnvelope, (Framing.measure_eq_none_iff (f := a.framing) hl data).mpr hshort]
  have hrun : a.intake.runFrom a.pending true data
      = ⟨.ok (), .header data.toArray, [.progress ⟨none, data.length, 0⟩]⟩ := by
    rw [hidle]
    exact Intake.runFrom_of_partial_envelope (i := a.intake) hl hne hincomplete true (by simp [intake, hlenient])
  rw [receiveAt_eq hstorage hne hroom, hrun]
  exact ⟨rfl, deliveries_heard a [.progress ⟨none, data.length, 0⟩], rfl, rfl⟩

/-- An envelope that is not whole is kept by both, be it left over behind a message or long enough to start one. -/
theorem receiveAt_of_partial_envelope {fresh : Bool} {left : Bytes} (hl : a.layout.Lawful)
    (hpending : a.pending.Sound a.layout a.remote) (hlenient : a.settings.allowPartial = true)
    (hroom : ∃ scratch, a.storage = .ready scratch ∧ offset + data.length ≤ scratch.capacity)
    (hvisits : a.intake.Visits a.pending data .idle fresh left) (hne : left ≠ [])
    (hlong : fresh = true → a.layout.minimum ≤ left.length)
    (hincomplete : a.framing.readEnvelope left a.remote = .ok none) (allowed : Bool) :
    let r := (a.withPartial allowed).receiveAt offset data
    r.result = .ok () ∧ r.assembler.pending = .header left.toArray := by
  obtain ⟨scratch, hstorage, hroom⟩ := hroom
  have hdata : data ≠ [] := Intake.ne_nil_of_visits hvisits hne
  -- A short first receive has no step but its first, so nothing of it is left that is not all of it.
  have hlong' : ¬ a.StartsShort offset data.length := by
    rintro ⟨hidle, ⟨-, hshort⟩, -⟩
    rw [hidle] at hvisits
    rcases Intake.visits_of_short (i := a.intake) hl hshort hvisits with ⟨hfresh, -, rfl⟩ | hnil
    · exact absurd (hlong hfresh) (Nat.not_le_of_lt hshort)
    · exact hne hnil
  have hrun := Intake.runFrom_of_partial_envelope (i := a.intake) hl hne hincomplete fresh
    (by simp [intake, hlenient])
  obtain ⟨hresult, hkept⟩ := Intake.runFrom_of_visits (i := a.intake) hl hpending hvisits
  rw [hrun] at hresult hkept
  rw [receiveAt_withPartial hl allowed hlong', receiveAt_eq hstorage hdata hroom]
  simp only [Reaction.withPartial, withPartial, afterRun_of_ok hresult]
  exact ⟨hresult, hkept⟩

/-- **Strictness shows in nothing but short receives that start messages.** Until one comes a strict and a lenient
assembler do the same; then only one keeps it. -/
theorem strict_eq_lenient_until_short (remote : String) (settings : AssemblerSettings) (ops : List Operation)
    (receives : List (Nat × Bytes))
    (hlong : (((ofSettings .standard remote settings).after ops).withPartial true).NeverShort receives) :
    let a := (ofSettings .standard remote settings).after ops
    let calls := receives.flatMap Operation.receiving
    let strict := (a.withPartial false).after calls
    let lenient := (a.withPartial true).after calls
    (a.withPartial false).reactions calls = ((a.withPartial true).reactions calls).map (·.withPartial false)
      ∧ strict = lenient.withPartial false
      ∧ (∀ offset data, lenient.StartsShort offset data.length →
        let refused := strict.receiveAt offset data
        let kept := lenient.receiveAt offset data
        (refused.result = .error (.tooShort data.length 10) ∧ refused.deliveries = []
            ∧ refused.assembler.state = .idle)
          ∧ kept.result = .ok () ∧ kept.deliveries = [] ∧ kept.assembler.state = .awaitingHeader
          ∧ kept.assembler.pending.bytes = data)
      ∧ ∀ offset data fresh left,
        (∃ scratch, lenient.storage = .ready scratch ∧ offset + data.length ≤ scratch.capacity) →
        lenient.intake.Visits lenient.pending data .idle fresh left → left ≠ [] →
          (fresh = true → 10 ≤ left.length) →
        lenient.framing.readEnvelope left remote = .ok none →
        ∀ b ∈ [strict, lenient], let r := b.receiveAt offset data
          r.result = .ok () ∧ r.assembler.pending = .header left.toArray := by
  intro a calls strict lenient
  have hsound : (a.withPartial true).Sound .standard remote := by
    obtain ⟨hlayout, hremote, hpending, hready⟩ :=
      (sound_ofSettings .standard remote settings).after Layout.standard_lawful ops
    exact ⟨hlayout, hremote, hpending, hready⟩
  obtain ⟨hreactions, hstrict⟩ := hlong.receives_withPartial hsound false
  change strict = lenient.withPartial false at hstrict
  have hsame : lenient = lenient.withPartial true := (hlong.receives_withPartial hsound true).2
  have hlenient : lenient.settings.allowPartial = true := congrArg (·.settings.allowPartial) hsame
  have hkept : lenient.Sound .standard remote := hsound.after Layout.standard_lawful calls
  have hl : lenient.layout.Lawful := hkept.layout_eq ▸ Layout.standard_lawful
  have hminimum : lenient.layout.minimum = 10 := congrArg (·.minimum) hkept.layout_eq
  refine ⟨hreactions, hstrict, fun offset data hshort => ⟨?_, hshort.receiveAt_of_lenient hl hlenient⟩, ?_⟩
  · rw [hstrict, ← hminimum]
    exact StartsShort.receiveAt_of_strict (a := lenient.withPartial false) hshort hl rfl
  · intro offset data fresh left hroom hvisits hne hlong hincomplete b hb
    have hpending : lenient.pending.Sound lenient.layout lenient.remote := by
      rw [hkept.layout_eq, hkept.remote_eq]
      exact hkept.pending
    have hboth := receiveAt_of_partial_envelope hl hpending hlenient hroom hvisits hne (hminimum ▸ hlong)
      (hkept.remote_eq ▸ hincomplete)
    simp only [List.mem_cons, List.not_mem_nil, or_false] at hb
    rcases hb with rfl | rfl
    · exact hstrict ▸ hboth false
    · exact hsame ▸ hboth true

/-- A message with the front of the next envelope behind it, the rest of that, and then a short receive or a short
leftover. -/
theorem strict_eq_lenient_until_short_of_leftover :
    let a := (ofSettings .standard "peer" { scratchCapacity := 16 }).after [.observe true]
    let receives : List (Nat × Bytes) :=
      [(0, [1, 0, 0, 0, 0xa4, 0xa5, 0xa5, 0xa5, 0, 0, 9, 0, 0, 0]), (3, [0, 0xa5, 0xa5, 0xa5, 0xa5, 0, 0])]
    let calls := receives.flatMap Operation.receiving
    let strict := (a.withPartial false).after calls
    let lenient := (a.withPartial true).after calls
    let data : Bytes := [0, 0, 0, 0, 0xa5, 0xa5, 0xa5, 0xa5, 0, 0, 7, 0]
    (a.withPartial true).NeverShort receives
      ∧ (a.withPartial false).reactions calls = ((a.withPartial true).reactions calls).map (·.withPartial false)
      ∧ (strict.state, lenient.state) = (.idle, .idle)
      ∧ lenient.StartsShort 2 3
      ∧ (strict.receiveAt 2 [1, 0, 0]).result = .error (.tooShort 3 10)
      ∧ (lenient.receiveAt 2 [1, 0, 0]).assembler.pending.bytes = [1, 0, 0]
      ∧ lenient.intake.Visits lenient.pending data .idle false [7, 0]
      ∧ (strict.receiveAt 0 data).assembler.pending = .header #[7, 0]
      ∧ (lenient.receiveAt 0 data).assembler.pending = .header #[7, 0] := by
  intro a receives calls strict lenient data
  have hlong : (a.withPartial true).NeverShort receives := by
    refine ⟨fun h => absurd h.2.1.2 (by decide), fun h => absurd h.1 (by decide +kernel), trivial⟩
  have hmade : (a.withPartial true).MadeFor .standard "peer" := by
    refine ⟨rfl, rfl, fun scratch hscratch => ?_⟩
    cases hscratch
    rfl
  obtain ⟨hlayout, hremote, hcapacity⟩ : lenient.MadeFor .standard "peer" := hmade.after calls
  have hsettings : lenient.settings = { scratchCapacity := 16 } := by decide +kernel
  have hidle : lenient.pending = .idle := by decide +kernel
  obtain ⟨scratch, hstorage⟩ := ready_of_state (a := lenient) (by decide +kernel) (by decide +kernel)
  have hcapacity' : scratch.capacity = 16 := by rw [hcapacity scratch hstorage, hsettings, Nat.max_eq_left (by decide)]
  have hintake : lenient.intake = ⟨⟨.standard, 134217728⟩, "peer", true⟩ := by
    rw [intake, framing, hlayout, hremote, hsettings]
  have hshort : lenient.StartsShort 2 3 := by
    refine ⟨hidle, ?_, scratch, hstorage, by omega⟩
    rw [hlayout]
    decide
  have hvisits : lenient.intake.Visits lenient.pending data .idle false [7, 0] := by
    have hfirst : (lenient.intake.step lenient.pending true data).toOption.map (fun a => (a.consumed, a.pending))
        = some (10, .idle) := by
      rw [hidle, hintake]
      decide +kernel
    rcases hstep : lenient.intake.step lenient.pending true data with e | ⟨consumed, next, events⟩
    · rw [hstep] at hfirst
      cases hfirst
    · rw [hstep] at hfirst
      cases hfirst
      exact .next .first (List.cons_ne_nil _ _) hstep
  obtain ⟨hreactions, -, hdiffer, hleft⟩ :=
    strict_eq_lenient_until_short "peer" { scratchCapacity := 16 } [.observe true] receives hlong
  obtain ⟨hrefused, hkept⟩ := hdiffer 2 [1, 0, 0] hshort
  have hincomplete : lenient.framing.readEnvelope [7, 0] "peer" = .ok none := by
    rw [show lenient.framing = ⟨.standard, 134217728⟩ from congrArg (·.framing) hintake]
    rfl
  have hboth := hleft 0 data false [7, 0] ⟨scratch, hstorage, by rw [hcapacity']; decide⟩ hvisits
    (List.cons_ne_nil _ _) (fun h => absurd h Bool.false_ne_true) hincomplete
  exact ⟨hlong, hreactions, by decide +kernel, hshort, hrefused.1, hkept.2.2.2, hvisits,
    (hboth strict List.mem_cons_self).2, (hboth lenient (List.mem_cons_of_mem _ List.mem_cons_self)).2⟩

end Assembler

end MessageWire
