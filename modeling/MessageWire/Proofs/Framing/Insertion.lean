import MessageWire.Proofs.Framing.Log
/-!
# Calls that bring nothing

A call that names bytes outside of the scratch buffer, or no bytes at all, leaves an assembler as it was
(`MadeFor.perform_hollow`): what is pending and what lies in the scratch buffer, too. So such calls may stand anywhere
in a run, also in the middle of an envelope or a payload, and all others go on as if they were not there
(`Assembler.hollow_calls_change_nothing`).

An assembler at work has taken its scratch buffer and what is pending out of itself, and has to put them back on every
way out. `Assembler.processInPlace` tells how it does, and is the same as `Assembler.processAt`.
-/

namespace MessageWire

namespace Assembler

/-! ### Working in place -/

/-- `Intake.runFrom` on an assembler from which what is pending is taken out before each step. -/
def runInPlace (a : Assembler) (fresh : Bool) (window : Bytes) : Reaction :=
  match window with
  | [] => ⟨.ok (), [], a⟩
  | b :: bs =>
    let taken := { a with pending := .idle }
    match a.intake.step a.pending fresh (b :: bs) with
    | .error e => ⟨.error e, [], taken⟩
    | .ok ⟨0, _, events⟩ => ⟨.error .stalled, events, taken⟩
    | .ok ⟨n + 1, pending, events⟩ =>
      let later := { taken with pending }.runInPlace false (bs.drop n)
      { later with events := events ++ later.events }
termination_by window.length
decreasing_by
  simp only [List.length_drop, List.length_cons]
  omega

def workInPlace (a : Assembler) (window : Bytes) : Reaction :=
  match a.pending, window with
  | .idle, [] => ⟨.error (.tooShort 0 a.layout.minimum), [], a⟩
  | _, _ => a.runInPlace true window

/-- `Assembler.processAt` with the scratch buffer taken out first, so that a fatal error has only to leave it out. -/
def processInPlace (a : Assembler) (offset received : Nat) : Reaction :=
  match a.scratch with
  | .error e => ⟨.error e, [], a⟩
  | .ok scratch =>
    let taken := { a with storage := .poisoned }
    let restore (a : Assembler) : Assembler := { a with storage := .ready scratch }
    if offset + received > scratch.capacity then
      ⟨.error (.scratchOverrun offset received scratch.capacity), [], restore taken⟩
    else
      let worked := taken.workInPlace (scratch.window offset received)
      match worked.result with
      | .ok () => ⟨.ok (), a.heard worked.events, restore worked.assembler⟩
      | .error e =>
        let cleared := { worked.assembler with pending := .idle }
        ⟨.error e, a.heard (worked.events ++ [.progress .cleared]), if e.isFatal then cleared else restore cleared⟩

theorem runInPlace_eq (a : Assembler) (fresh : Bool) (window : Bytes) :
    a.runInPlace fresh window =
      let run := a.intake.runFrom a.pending fresh window
      ⟨run.result, run.events, { a with pending := run.pending }⟩ := by
  fun_induction runInPlace a fresh window with
  | case1 a fresh => rw [Intake.runFrom_nil]
  | case2 a fresh b bs taken e hstep =>
    rw [Intake.runFrom]
    simp only [hstep]
    rfl
  | case3 a fresh b bs taken pending events hstep =>
    rw [Intake.runFrom]
    simp only [hstep]
    rfl
  | case4 a fresh b bs taken n pending events hstep later ih =>
    rw [Intake.runFrom]
    simp only [hstep, later, ih]
    rfl

theorem workInPlace_eq (a : Assembler) (window : Bytes) :
    a.workInPlace window =
      let run := a.intake.run a.pending window
      ⟨run.result, run.events, { a with pending := run.pending }⟩ := by
  obtain ⟨layout, remote, settings, storage, pending, observed⟩ := a
  cases pending with
  | idle =>
    cases window with
    | nil => rfl
    | cons b bs => exact runInPlace_eq _ true _
  | header received => exact runInPlace_eq _ true _
  | body envelope received total => exact runInPlace_eq _ true _

/-- **All that is taken out is put back** on every way out, save for the scratch buffer after a fatal error. -/
theorem processInPlace_eq_processAt (a : Assembler) (offset received : Nat) :
    a.processInPlace offset received = a.processAt offset received := by
  unfold processInPlace processAt
  cases hscratch : a.scratch with
  | error e => rfl
  | ok scratch =>
    have hstorage := storage_of_scratch hscratch
    have hback : { a with storage := .ready scratch } = a := by rw [← hstorage]
    simp only [workInPlace_eq]
    split
    case isTrue => rw [hback]
    case isFalse =>
      have hintake : Assembler.intake { a with storage := .poisoned } = a.intake := rfl
      rw [hintake]
      generalize a.intake.run a.pending (scratch.window offset received) = run
      unfold afterRun
      simp only [hstorage]
      cases run.result <;> rfl

end Assembler

/-! ### Calls that bring nothing -/

namespace Operation

/-- Nothing comes in: the bytes named are none, or they do not all lie in a scratch buffer of some capacity. -/
def Hollow (capacity : Nat) : Operation → Prop
  | .processAt offset received => received = 0 ∨ capacity < offset + received
  | .feed data => data = []
  | _ => False

/-- What is answered if nothing comes in. No bytes are an error only for one that waits for a message. -/
def hollowAnswer (capacity minimum : Nat) (state : ReceiveState) (op : Operation) : Except MessageError Unit :=
  match state, op with
  | .disposed, _ => .error .disposed
  | .poisoned, _ => .error .poisoned
  | .idle, .processAt offset received =>
    if capacity < offset + received then .error (.scratchOverrun offset received capacity)
    else .error (.tooShort 0 minimum)
  | .idle, _ => .error (.tooShort 0 minimum)
  | _, .processAt offset received =>
    if capacity < offset + received then .error (.scratchOverrun offset received capacity) else .ok ()
  | _, _ => .ok ()

end Operation

namespace Assembler

variable {a : Assembler} {layout : Layout} {remote : String} {op : Operation} {offset received : Nat}

theorem feed_nil (a : Assembler) : a.feed [] = a.processAt 0 0 := by
  unfold feed
  cases hscratch : a.scratch with
  | error e => rw [processAt, hscratch]
  | ok scratch =>
    have hload : a.load 0 [] = .ok a := by
      have hstorage := storage_of_scratch hscratch
      rw [load, hscratch, Except.map, Scratch.put, List.take_nil, ← hstorage]
    have hreceives : receives scratch.capacity [] = [[]] := if_pos (Nat.zero_le _)
    simp only [hreceives, receiveAll, receive, hload, List.length_nil]
    cases hresult : (a.processAt 0 0).result with
    | error e => rfl
    | ok =>
      simp only [List.append_nil]
      rw [← hresult]

theorem processAt_zero {scratch : Scratch} (hstorage : a.storage = .ready scratch)
    (hfits : offset ≤ scratch.capacity) :
    a.processAt offset 0 =
      match a.pending with
      | .idle => ⟨.error (.tooShort 0 a.layout.minimum), a.heard [.progress .cleared], a⟩
      | _ => ⟨.ok (), [], a⟩ := by
  have hwindow : scratch.window offset 0 = [] := by simp [Scratch.window]
  have hover : ¬ offset + 0 > scratch.capacity := by omega
  obtain ⟨layout, remote, settings, storage, pending, observed⟩ := a
  obtain rfl : storage = .ready scratch := hstorage
  rw [processAt]
  simp only [Assembler.scratch, if_neg hover, hwindow]
  cases pending with
  | idle => rfl
  | header received =>
    have hrun : ∀ i : Intake, i.run (.header received) [] = ⟨.ok (), .header received, []⟩ :=
      fun i => Intake.runFrom_nil _ true
    simp only [hrun]
    rfl
  | body envelope received total =>
    have hrun : ∀ i : Intake, i.run (.body envelope received total) []
      = ⟨.ok (), .body envelope received total, []⟩ :=
      fun i => Intake.runFrom_nil _ true
    simp only [hrun]
    rfl

theorem processAt_of_overrun {scratch : Scratch} (hstorage : a.storage = .ready scratch)
    (hover : scratch.capacity < offset + received) :
    a.processAt offset received = ⟨.error (.scratchOverrun offset received scratch.capacity), [], a⟩ := by
  rw [processAt]
  simp only [Assembler.scratch, hstorage, if_pos hover]

theorem MadeFor.processAt_hollow (h : a.MadeFor layout remote)
    (hop : (Operation.processAt offset received).Hollow (max a.settings.scratchCapacity 1)) :
    let r := a.processAt offset received
    r.result = (Operation.processAt offset received).hollowAnswer
      (max a.settings.scratchCapacity 1) layout.minimum a.state
      ∧ r.deliveries = [] ∧ r.assembler = a := by
  cases hscratch : a.scratch with
  | error e =>
    have hrefused : a.processAt offset received = ⟨.error e, [], a⟩ := by rw [Assembler.processAt, hscratch]
    rw [hrefused]
    refine ⟨?_, rfl, rfl⟩
    rcases state_of_scratch_error hscratch with ⟨rfl, hstate⟩ | ⟨rfl, hstate⟩
    all_goals
      rw [hstate]
      rfl
  | ok scratch =>
    have hstorage := storage_of_scratch hscratch
    have hcapacity := h.capacity_eq scratch hstorage
    rw [← hcapacity] at hop ⊢
    by_cases hover : scratch.capacity < offset + received
    · rw [processAt_of_overrun hstorage hover]
      refine ⟨?_, rfl, rfl⟩
      cases hpending : a.pending
      all_goals simp only [Assembler.state, hstorage, hpending, Operation.hollowAnswer, if_pos hover]
    · obtain rfl : received = 0 := hop.resolve_right hover
      rw [processAt_zero hstorage (by omega)]
      cases hpending : a.pending
      case idle =>
        refine ⟨?_, ?_, rfl⟩
        · simp only [Assembler.state, hstorage, hpending, Operation.hollowAnswer, if_neg hover, h.layout_eq]
        · exact deliveries_heard a [.progress .cleared]
      all_goals
        refine ⟨?_, rfl, rfl⟩
        simp only [Assembler.state, hstorage, hpending, Operation.hollowAnswer, if_neg hover]

theorem MadeFor.perform_hollow (h : a.MadeFor layout remote) (hop : op.Hollow (max a.settings.scratchCapacity 1)) :
    let r := a.perform op
    r.result = op.hollowAnswer (max a.settings.scratchCapacity 1) layout.minimum a.state
      ∧ r.deliveries = [] ∧ r.assembler = a := by
  cases op with
  | processAt offset received => exact h.processAt_hollow hop
  | feed data =>
    obtain rfl : data = [] := hop
    have hnone : ¬ max a.settings.scratchCapacity 1 < 0 + 0 := Nat.not_lt_zero _
    have hsame : (Operation.feed []).hollowAnswer (max a.settings.scratchCapacity 1) layout.minimum a.state
        = (Operation.processAt 0 0).hollowAnswer (max a.settings.scratchCapacity 1) layout.minimum a.state := by
      cases a.state <;> simp only [Operation.hollowAnswer, if_neg hnone]
    rw [perform, feed_nil, hsame]
    exact h.processAt_hollow (.inl rfl)
  | _ => exact hop.elim

/-! ### Calls inserted into a run -/

/-- What an assembler makes of some operations, one after the other. -/
def reactions (a : Assembler) : List Operation → List Reaction
  | [] => []
  | op :: ops => a.perform op :: (a.perform op).assembler.reactions ops

theorem reactions_append (a : Assembler) (ops later : List Operation) :
    a.reactions (ops ++ later) = a.reactions ops ++ (a.after ops).reactions later := by
  induction ops generalizing a with
  | nil => rfl
  | cons op ops ih => exact congrArg (_ :: ·) (ih _)

/-- What an assembler makes of the operations of a run (`inl`) into which others (`inr`) are inserted. -/
def reactionsAmong (a : Assembler) : List (Operation ⊕ Operation) → List Reaction
  | [] => []
  | .inl op :: calls => a.perform op :: (a.perform op).assembler.reactionsAmong calls
  | .inr op :: calls => (a.perform op).assembler.reactionsAmong calls

theorem MadeFor.hollow_calls (h : a.MadeFor layout remote) (calls : List (Operation ⊕ Operation))
    (hhollow : ∀ op, .inr op ∈ calls → op.Hollow (max a.settings.scratchCapacity 1)) :
    (∀ earlier op later, calls = earlier ++ .inr op :: later →
      let b := a.after (earlier.map (Sum.elim id id))
      let r := b.perform op
      r.result = op.hollowAnswer (max a.settings.scratchCapacity 1) layout.minimum b.state
        ∧ r.deliveries = [] ∧ r.assembler = b)
      ∧ a.reactionsAmong calls = a.reactions (calls.filterMap Sum.getLeft?)
      ∧ a.after (calls.map (Sum.elim id id)) = a.after (calls.filterMap Sum.getLeft?) := by
  induction calls generalizing a with
  | nil => exact ⟨fun earlier op later hsplit => by simp at hsplit, rfl, rfl⟩
  | cons call calls ih =>
    have hrest : ∀ op, .inr op ∈ calls → op.Hollow (max a.settings.scratchCapacity 1) :=
      fun op hop => hhollow op (List.mem_cons_of_mem call hop)
    cases call with
    | inl own =>
      have hcapacity : (a.perform own).assembler.settings.scratchCapacity = a.settings.scratchCapacity :=
        scratchCapacity_after a [own]
      obtain ⟨hinserted, hreactions, hafter⟩ := ih (a := (a.perform own).assembler) (h.after [own])
        (hcapacity ▸ hrest)
      rw [hcapacity] at hinserted
      refine ⟨fun earlier op later hsplit => ?_, congrArg (_ :: ·) hreactions, hafter⟩
      cases earlier with
      | nil => cases hsplit
      | cons first earlier =>
        obtain ⟨rfl, htail⟩ := List.cons.inj hsplit
        exact hinserted earlier op later htail
    | inr inserted =>
      -- The rest of the calls are made on the same assembler with or without this one.
      have hunmoved := h.perform_hollow (hhollow inserted List.mem_cons_self)
      obtain ⟨hinserted, hreactions, hafter⟩ := ih h hrest
      rw [reactionsAmong, List.map_cons, Assembler.after, Sum.elim_inr, id, hunmoved.2.2]
      refine ⟨fun earlier op later hsplit => ?_, hreactions, hafter⟩
      cases earlier with
      | nil =>
        cases hsplit
        exact hunmoved
      | cons first earlier =>
        obtain ⟨rfl, htail⟩ := List.cons.inj hsplit
        rw [List.map_cons, Assembler.after, Sum.elim_inr, id, hunmoved.2.2]
        exact hinserted earlier op later htail

/-- **Calls that bring nothing change nothing**, wherever they are inserted into a run. All other calls have the results
and deliveries of the run without them. -/
theorem hollow_calls_change_nothing (layout : Layout) (remote : String) (settings : AssemblerSettings)
    (before : List Operation) (calls : List (Operation ⊕ Operation))
    (hhollow : ∀ op, .inr op ∈ calls → op.Hollow (max settings.scratchCapacity 1)) :
    let a := (ofSettings layout remote settings).after before
    let all := calls.map (Sum.elim id id)
    let own := calls.filterMap Sum.getLeft?
    (∀ earlier op later, calls = earlier ++ .inr op :: later →
      let b := a.after (earlier.map (Sum.elim id id))
      let r := b.perform op
      r.result = op.hollowAnswer (max settings.scratchCapacity 1) layout.minimum b.state
        ∧ r.deliveries = [] ∧ r.assembler = b)
      ∧ a.reactionsAmong calls = a.reactions own ∧ a.after all = a.after own := by
  intro a all own
  have hmade : a.MadeFor layout remote := (madeFor_ofSettings _ _ _).after before
  have hcapacity : a.settings.scratchCapacity = settings.scratchCapacity := scratchCapacity_after _ before
  rw [← hcapacity] at hhollow ⊢
  exact hmade.hollow_calls calls hhollow

/-- Before a message, in its envelope and in its payload: receives without bytes, one that does not fit, and one whose
end no machine word holds. -/
theorem hollow_calls_change_nothing_amid_message :
    let a := (ofSettings .standard "peer" { scratchCapacity := 16 }).after [.observe true]
    let calls : List (Operation ⊕ Operation) :=
      [.inr (.processAt 9 0), .inl (.load 0 [1, 0, 0, 0, 0xa4]), .inl (.processAt 0 5), .inr (.processAt 10 7),
        .inr (.feed []), .inl (.load 3 [0xa5, 0xa5, 0xa5, 0, 0]), .inr (.processAt 18446744073709551615 2),
        .inl (.processAt 3 5), .inr (.processAt 16 0), .inr (.processAt 3 14), .inl (.load 0 [7]),
        .inl (.processAt 0 1)]
    (∀ op, .inr op ∈ calls → op.Hollow (max 16 1))
      ∧ a.reactionsAmong calls = a.reactions (calls.filterMap Sum.getLeft?)
      ∧ (a.reactionsAmong calls).flatMap (·.deliveries) =
        [⟨⟨⟨⟨1, 0xa5a5a5a4, 10⟩, [], "peer"⟩, [7]⟩, true⟩] := by
  intro a calls
  have hhollow : ∀ op, .inr op ∈ calls → op.Hollow (max 16 1) := by
    intro op hop
    simp only [calls, List.mem_cons, Sum.inr.injEq, reduceCtorEq, false_or, List.not_mem_nil, or_false] at hop
    rcases hop with rfl | rfl | rfl | rfl | rfl | rfl
    all_goals simp [Operation.Hollow]
  obtain ⟨-, hreactions, -⟩ :=
    hollow_calls_change_nothing .standard "peer" { scratchCapacity := 16 } [.observe true] calls hhollow
  exact ⟨hhollow, hreactions, by decide +kernel⟩

end Assembler

end MessageWire
