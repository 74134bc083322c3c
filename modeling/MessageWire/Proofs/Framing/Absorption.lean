import Mathlib.Control.Monad.Basic
import MessageWire.Proofs.Framing.Reception
import MessageWire.Proofs.Framing.Soundness
/-!
# Assemblers that have given up

A fatal error poisons an assembler, and whoever has no more use for one disposes of it. Either way it has no scratch
buffer and nothing pending from then on (`Assembler.Gone`), and no operation brings them back: bytes are refused, and
nothing is delivered or told. Of a poisoned assembler observers hear one thing more, that what was pending is dropped,
and hear it last (`Assembler.Poisons`).

A receiver with such an assembler hands out the messages that came before the fatal envelope, then the error, and
then refuses without reading (`Receiver.answers_of_gone`, `Receiver.Orderly.answers_of_overflow`).
-/

namespace MessageWire

/-! ### What a receive tells -/

/-- Whether it tells that a pending message was dropped. -/
def Event.isCleared : Event → Bool
  | .progress p => p.isCleared
  | .delivery _ => false

/-- Of an envelope that is kept there is at least a byte. -/
def Pending.Begun : Pending → Prop
  | .header received => received.size ≠ 0
  | _ => True

namespace Intake

variable {i : Intake} {a : Advance} {pending : Pending} {fresh : Bool} {window : Bytes} {received : Array UInt8}
  {envelope : Envelope} {total : Nat}

/-- A step that drops nothing. -/
structure Keeps (a : Advance) : Prop where
  pending : a.pending.Begun
  events : ∀ event ∈ a.events, event.isCleared = false

theorem keeps_keepHeader (h : received.size ≠ 0) (consumed : Nat) : Keeps (keepHeader received consumed) := by
  refine ⟨h, fun event hevent => ?_⟩
  obtain rfl := List.mem_singleton.mp hevent
  simp [Event.isCleared, Progress.isCleared, h]

theorem keeps_of_envelope {next : Pending} {consumed count expected : Nat} (hnext : next.Begun) :
    Keeps ⟨consumed, next, [.progress ⟨some envelope, count, expected⟩]⟩ := by
  refine ⟨hnext, fun event hevent => ?_⟩
  obtain rfl := List.mem_singleton.mp hevent
  rfl

theorem keeps_completed {consumed : Nat} {payload : Bytes} {owned : Bool} :
    Keeps ⟨consumed, .idle, completed envelope total payload owned⟩ := by
  refine ⟨trivial, fun event hevent => ?_⟩
  simp only [completed, List.mem_cons, List.not_mem_nil, or_false] at hevent
  rcases hevent with rfl | rfl
  all_goals rfl

theorem keeps_begin (hne : window ≠ []) (h : i.begin fresh window = .ok a) : Keeps a := by
  have hkeep : Keeps (keepHeader window.toArray window.length) :=
    keeps_keepHeader (by simpa using hne) _
  unfold begin at h
  split at h
  · cases h
  · split at h
    · cases h
    · cases h
      exact hkeep
  · simp only at h
    split at h
    · cases h
      exact hkeep
    · split at h
      · cases h
        exact keeps_completed
      · cases h
        exact keeps_of_envelope trivial

theorem keeps_extendBody (h : extendBody envelope received total window = .ok a) : Keeps a := by
  unfold extendBody at h
  split at h
  · cases h
  · simp only at h
    split at h
    · cases h
      exact keeps_of_envelope trivial
    · cases h
      exact keeps_completed

theorem keeps_of_map_after {got : Except MessageError Advance} {n : Nat} (h : got.map (Advance.after n) = .ok a)
    (hgot : ∀ b, got = .ok b → Keeps b) : Keeps a := by
  cases got with
  | error e => cases h
  | ok b =>
    cases h
    obtain ⟨hpending, hevents⟩ := hgot b rfl
    exact ⟨hpending, hevents⟩

theorem size_appendList_ne_zero (h : received.size ≠ 0) (more : Bytes) : (received.appendList more).size ≠ 0 := by
  obtain ⟨held⟩ := received
  rw [List.size_toArray] at h
  rw [appendList_toArray, List.size_toArray, List.length_append]
  omega

theorem keeps_extendHeader (hreceived : received.size ≠ 0) (h : i.extendHeader received window = .ok a) :
    Keeps a := by
  have hfirst := size_appendList_ne_zero hreceived
  unfold extendHeader at h
  simp only at h
  split at h
  · cases h
  · split at h
    · cases h
      exact keeps_keepHeader (hfirst _) _
    · cases h
  · split at h
    · cases h
      exact keeps_keepHeader (size_appendList_ne_zero (hfirst _) _) _
    · exact keeps_of_map_after h fun b hb => keeps_extendBody hb

/-- **A step drops nothing** unless it fails, whatever the layout of the envelopes is. -/
theorem keeps_step (hpending : pending.Begun) (hne : window ≠ []) (h : i.step pending fresh window = .ok a) :
    Keeps a := by
  cases pending with
  | idle => exact keeps_begin hne h
  | header received => exact keeps_extendHeader hpending h
  | body envelope received total => exact keeps_extendBody h

theorem keeps_runFrom (hpending : pending.Begun) :
    (i.runFrom pending fresh window).pending.Begun
      ∧ ∀ event ∈ (i.runFrom pending fresh window).events, event.isCleared = false := by
  fun_induction runFrom i pending fresh window with
  | case1 pending fresh => exact ⟨hpending, List.forall_mem_nil _⟩
  | case2 pending fresh b bs e hstep => exact ⟨trivial, List.forall_mem_nil _⟩
  | case3 pending fresh b bs next events hstep =>
    exact ⟨trivial, (keeps_step hpending (List.cons_ne_nil b bs) hstep).events⟩
  | case4 pending fresh b bs n next events hstep later ih =>
    have hkeeps := keeps_step hpending (List.cons_ne_nil b bs) hstep
    obtain ⟨hnext, hlater⟩ := ih hkeeps.pending
    refine ⟨hnext, fun event hevent => ?_⟩
    rcases List.mem_append.mp hevent with hnow | hafter
    · exact hkeeps.events event hnow
    · exact hlater event hafter

theorem keeps_run (hpending : pending.Begun) (window : Bytes) :
    (i.run pending window).pending.Begun ∧ ∀ event ∈ (i.run pending window).events, event.isCleared = false := by
  unfold run
  split
  · exact ⟨trivial, List.forall_mem_nil _⟩
  · exact keeps_runFrom hpending

end Intake

/-! ### Assemblers without a scratch buffer -/

def Operation.needsScratch : Operation → Bool
  | .load _ _ => true
  | .processAt _ _ => true
  | .feed _ => true
  | _ => false

namespace Assembler

variable {a : Assembler} {cause : MessageError} {payload overhead : UInt32}

/-- An assembler that refuses bytes for `cause`, and has nothing pending. -/
structure Gone (cause : MessageError) (a : Assembler) : Prop where
  scratch : a.scratch = .error cause
  pending : a.pending = .idle

theorem Gone.load_eq (h : a.Gone cause) (offset : Nat) (data : Bytes) : a.load offset data = .error cause := by
  rw [load, h.scratch]
  rfl

theorem Gone.processAt_eq (h : a.Gone cause) (offset received : Nat) :
    a.processAt offset received = ⟨.error cause, [], a⟩ := by
  rw [processAt, h.scratch]

theorem Gone.feed_eq (h : a.Gone cause) (data : Bytes) : a.feed data = ⟨.error cause, [], a⟩ := by
  rw [feed, h.scratch]

theorem Gone.reset_eq (h : a.Gone cause) : a.reset = ⟨.ok (), [], a⟩ := by
  rw [reset, h.pending]

theorem Gone.perform (h : a.Gone cause) (op : Operation) :
    (a.perform op).events = [] ∧ (op.needsScratch → (a.perform op).result = .error cause) := by
  cases op with
  | load offset data =>
    rw [Assembler.perform, h.load_eq]
    exact ⟨rfl, fun _ => rfl⟩
  | processAt offset received =>
    rw [Assembler.perform, h.processAt_eq]
    exact ⟨rfl, fun _ => rfl⟩
  | feed data =>
    rw [Assembler.perform, h.feed_eq]
    exact ⟨rfl, fun _ => rfl⟩
  | reset =>
    rw [Assembler.perform, h.reset_eq]
    exact ⟨rfl, (absurd · Bool.false_ne_true)⟩
  | dispose => exact ⟨rfl, (absurd · Bool.false_ne_true)⟩
  | setMaxMessageSize max => exact ⟨rfl, (absurd · Bool.false_ne_true)⟩
  | observe observed => exact ⟨rfl, (absurd · Bool.false_ne_true)⟩

theorem gone_of_dispose (h : a.pending ≠ .idle → ∃ scratch, a.storage = .ready scratch) :
    a.dispose.Gone .disposed := by
  unfold dispose
  cases hstorage : a.storage with
  | ready scratch => exact ⟨rfl, rfl⟩
  | poisoned => exact ⟨rfl, rfl⟩
  | disposed =>
    refine ⟨by simp [scratch, hstorage], Decidable.byContradiction fun hpending => ?_⟩
    obtain ⟨scratch, hready⟩ := h hpending
    rw [hstorage] at hready
    cases hready

/-- No operation brings the scratch buffer back, and only disposing of the assembler changes why it is missing. -/
theorem Gone.step (h : a.Gone cause) {op : Operation} (hop : op = .dispose → cause = .disposed) :
    (a.perform op).assembler.Gone cause := by
  cases op with
  | load offset data =>
    rw [Assembler.perform, h.load_eq]
    exact h
  | processAt offset received =>
    rw [Assembler.perform, h.processAt_eq]
    exact h
  | feed data =>
    rw [Assembler.perform, h.feed_eq]
    exact h
  | reset =>
    rw [Assembler.perform, h.reset_eq]
    exact h
  | dispose =>
    obtain rfl := hop rfl
    exact gone_of_dispose fun hpending => absurd h.pending hpending
  | setMaxMessageSize max => exact ⟨h.scratch, h.pending⟩
  | observe observed => exact ⟨h.scratch, h.pending⟩

theorem Gone.after (h : a.Gone cause) {ops : List Operation} (hops : .dispose ∈ ops → cause = .disposed) :
    (a.after ops).Gone cause := by
  induction ops generalizing a with
  | nil => exact h
  | cons op ops ih =>
    apply ih (h.step fun hop => hops (hop ▸ List.mem_cons_self))
    exact fun hmem => hops (List.mem_cons_of_mem op hmem)

theorem state_of_scratch_error (h : a.scratch = .error cause) :
    cause = .poisoned ∧ a.state = .poisoned ∨ cause = .disposed ∧ a.state = .disposed := by
  unfold Assembler.scratch at h
  unfold state
  split at h
  case h_1 => cases h
  case h_2 hstorage =>
    cases h
    exact .inl ⟨rfl, by rw [hstorage]⟩
  case h_3 hstorage =>
    cases h
    exact .inr ⟨rfl, by rw [hstorage]⟩

theorem scratch_ne_overflow : a.scratch ≠ .error (.overflow payload overhead) := by
  intro h
  rcases state_of_scratch_error h with ⟨hcause, -⟩ | ⟨hcause, -⟩
  all_goals cases hcause

theorem scratch_of_load_error {offset : Nat} {data : Bytes} (h : a.load offset data = .error cause) :
    a.scratch = .error cause := by
  unfold Assembler.load at h
  cases hscratch : a.scratch with
  | error e =>
    rw [hscratch] at h
    cases h
    rfl
  | ok scratch =>
    rw [hscratch] at h
    cases h

theorem Gone.state_of_poisoned (h : a.Gone .poisoned) : a.state = .poisoned := by
  rcases state_of_scratch_error h.scratch with ⟨-, hstate⟩ | ⟨hcause, -⟩
  · exact hstate
  · cases hcause

theorem Gone.state_of_disposed (h : a.Gone .disposed) : a.state = .disposed := by
  rcases state_of_scratch_error h.scratch with ⟨hcause, -⟩ | ⟨-, hstate⟩
  · cases hcause
  · exact hstate

/-! ### How an assembler is poisoned -/

/-- What is kept between receives lies in an assembler that takes bytes, and is no empty envelope. -/
structure Orderly (a : Assembler) : Prop where
  begun : a.pending.Begun
  ready : a.pending ≠ .idle → ∃ scratch, a.storage = .ready scratch

theorem orderly_of_idle (h : a.pending = .idle) : a.Orderly := by
  refine ⟨?_, fun hpending => absurd h hpending⟩
  rw [h]
  trivial

theorem load_eq_ok {a' : Assembler} {offset : Nat} {data : Bytes} (h : a.load offset data = .ok a') :
    ∃ scratch, a.storage = .ready scratch ∧ a' = { a with storage := .ready (scratch.put offset data) } := by
  unfold Assembler.load at h
  cases hscratch : a.scratch with
  | error e => simp [hscratch, Except.map] at h
  | ok scratch =>
    simp only [hscratch, Except.map, Except.ok.injEq] at h
    exact ⟨scratch, storage_of_scratch hscratch, h.symm⟩

theorem Orderly.load (h : a.Orderly) {a' : Assembler} {offset : Nat} {data : Bytes}
    (hload : a.load offset data = .ok a') : a'.Orderly := by
  obtain ⟨scratch, -, rfl⟩ := load_eq_ok hload
  exact ⟨h.begun, fun _ => ⟨_, rfl⟩⟩

theorem Orderly.afterRun {scratch : Scratch} (hstorage : a.storage = .ready scratch) {run : Intake.Run}
    (hrun : run.pending.Begun) : (a.afterRun run).Orderly := by
  unfold Assembler.afterRun
  split
  · split
    all_goals exact orderly_of_idle rfl
  · exact ⟨hrun, fun _ => ⟨scratch, hstorage⟩⟩

theorem Orderly.processAt (h : a.Orderly) (offset received : Nat) :
    (a.processAt offset received).assembler.Orderly := by
  unfold Assembler.processAt
  cases hscratch : a.scratch with
  | error e => exact h
  | ok scratch =>
    simp only
    split
    case isTrue => exact h
    case isFalse => exact Orderly.afterRun (storage_of_scratch hscratch) (Intake.keeps_run h.begun _).1

theorem Orderly.reset (h : a.Orderly) : a.reset.assembler.Orderly := by
  unfold Assembler.reset
  split
  · exact h
  · exact orderly_of_idle rfl

theorem Orderly.dispose (h : a.Orderly) : a.dispose.Orderly :=
  orderly_of_idle (gone_of_dispose h.ready).pending

theorem Orderly.after (h : a.Orderly) (ops : List Operation) : (a.after ops).Orderly :=
  after_induction (fun _ _ _ _ hload h => h.load hload) (fun _ offset received h => h.processAt offset received)
    (fun _ h => h.reset) (fun _ h => h.dispose) (fun _ _ h => ⟨h.begun, h.ready⟩)
    (fun _ _ h => ⟨h.begun, h.ready⟩)
    ops a h

/-- A reaction that poisons the assembler: what is told last, and only then, is that what was pending is dropped. -/
structure Poisons (a : Assembler) (r : Reaction) : Prop where
  gone : r.assembler.Gone .poisoned
  events : ∃ before, r.events = a.heard (before ++ [.progress .cleared])
    ∧ ∀ event ∈ before, event.isCleared = false

/-- A reaction that made known nothing of a message dropped. -/
structure Quiet (a : Assembler) (r : Reaction) : Prop where
  observed : r.assembler.observed = a.observed
  events : ∃ told, r.events = a.heard told ∧ ∀ event ∈ told, event.isCleared = false

theorem Poisons.events_of_observed {r : Reaction} (h : a.Poisons r) (hobserved : a.observed = true) :
    ∃ before, r.events = before ++ [.progress .cleared] ∧ ∀ event ∈ before, event.isCleared = false := by
  obtain ⟨before, hevents, hcleared⟩ := h.events
  refine ⟨before, ?_, hcleared⟩
  rw [hevents, heard, hobserved]
  simp

theorem Poisons.events_of_unobserved {r : Reaction} (h : a.Poisons r) (hobserved : a.observed = false) :
    ∀ event ∈ r.events, event.isDelivery = true := by
  obtain ⟨before, hevents, -⟩ := h.events
  intro event hevent
  rw [hevents, heard, hobserved] at hevent
  simpa using (List.mem_filter.mp hevent).2

theorem heard_eq {b : Assembler} (h : b.observed = a.observed) : b.heard = a.heard := by
  funext events
  rw [heard, heard, h]

theorem heard_append (a : Assembler) (events later : List Event) :
    a.heard (events ++ later) = a.heard events ++ a.heard later := List.filter_append _ _

theorem observed_afterRun (a : Assembler) (run : Intake.Run) : (a.afterRun run).observed = a.observed := by
  unfold afterRun
  split
  · split
    all_goals rfl
  · rfl

theorem processAt_cases (a : Assembler) (offset received : Nat) :
    (∃ e, a.processAt offset received = ⟨.error e, [], a⟩
        ∧ (a.scratch = .error e ∨ ∃ capacity, e = .scratchOverrun offset received capacity))
      ∨ ∃ scratch, a.storage = .ready scratch ∧ offset + received ≤ scratch.capacity
        ∧ let run := a.intake.run a.pending (scratch.window offset received)
          a.processAt offset received =
            ⟨run.result, a.heard (if run.result.isOk then run.events else run.events ++ [.progress .cleared]),
              a.afterRun run⟩ := by
  cases hscratch : a.scratch with
  | error e =>
    exact .inl ⟨e, by rw [processAt, hscratch], .inl rfl⟩
  | ok scratch =>
    by_cases hroom : offset + received > scratch.capacity
    · refine .inl ⟨.scratchOverrun offset received scratch.capacity, ?_, .inr ⟨scratch.capacity, rfl⟩⟩
      rw [processAt, hscratch]
      exact if_pos hroom
    · refine .inr ⟨scratch, storage_of_scratch hscratch, by omega, ?_⟩
      rw [processAt, hscratch]
      exact if_neg hroom

theorem Orderly.quiet_of_processAt (h : a.Orderly) {offset received : Nat}
    (hok : (a.processAt offset received).result = .ok ()) : a.Quiet (a.processAt offset received) := by
  rcases a.processAt_cases offset received with ⟨e, heq, -⟩ | ⟨scratch, -, -, heq⟩
  · rw [heq] at hok
    cases hok
  · obtain ⟨-, hevents⟩ := Intake.keeps_run (i := a.intake) h.begun (scratch.window offset received)
    simp only at heq
    rw [heq] at hok ⊢
    generalize a.intake.run a.pending (scratch.window offset received) = run at hok hevents ⊢
    refine ⟨observed_afterRun a run, run.events, ?_, hevents⟩
    simp only [show run.result = .ok () from hok]
    rfl

theorem Orderly.poisons_of_processAt (h : a.Orderly) {offset received : Nat}
    (herror : (a.processAt offset received).result = .error (.overflow payload overhead)) :
    a.Poisons (a.processAt offset received) := by
  rcases a.processAt_cases offset received with ⟨e, heq, hscratch | ⟨capacity, rfl⟩⟩ | ⟨scratch, -, -, heq⟩
  · rw [heq] at herror
    cases herror
    exact absurd hscratch scratch_ne_overflow
  · rw [heq] at herror
    cases herror
  · obtain ⟨-, hevents⟩ := Intake.keeps_run (i := a.intake) h.begun (scratch.window offset received)
    simp only at heq
    rw [heq] at herror ⊢
    generalize a.intake.run a.pending (scratch.window offset received) = run at herror hevents ⊢
    have hresult : run.result = .error (.overflow payload overhead) := herror
    refine ⟨?_, run.events, ?_, hevents⟩
    · simp only [Assembler.afterRun, hresult]
      exact ⟨rfl, rfl⟩
    · simp only [hresult]
      rfl

/-! ### Receives, one after the other -/

theorem Orderly.receiveAt (h : a.Orderly) (offset : Nat) (data : Bytes) :
    (a.receiveAt offset data).assembler.Orderly := by
  unfold Assembler.receiveAt
  split
  case h_1 => exact h
  case h_2 a' hload => exact (h.load hload).processAt offset data.length

theorem Orderly.quiet_of_receiveAt (h : a.Orderly) {offset : Nat} {data : Bytes}
    (hok : (a.receiveAt offset data).result = .ok ()) : a.Quiet (a.receiveAt offset data) := by
  unfold Assembler.receiveAt at hok ⊢
  split at hok
  case h_1 => cases hok
  case h_2 a' hload =>
    obtain ⟨observed, events⟩ := (h.load hload).quiet_of_processAt hok
    obtain ⟨scratch, -, rfl⟩ := load_eq_ok hload
    exact ⟨observed, events⟩

/-- A reaction that failed with `e` in its last receive. What was made known before tells of no message dropped. -/
def FailsInReceive (a : Assembler) (e : MessageError) (r : Reaction) : Prop :=
  ∃ (b : Assembler) (offset received : Nat) (told : List Event), b.Orderly ∧ b.observed = a.observed
    ∧ (b.processAt offset received).result = .error e ∧ r.assembler = (b.processAt offset received).assembler
    ∧ r.events = a.heard told ++ (b.processAt offset received).events ∧ ∀ event ∈ told, event.isCleared = false

section FailsInReceive

-- Whoever refuses bytes for want of a scratch buffer fails with another error.
variable (hscratch : ∀ b : Assembler, b.scratch ≠ .error cause)

include hscratch

theorem Orderly.failsInReceive_of_receiveAt (h : a.Orderly) {offset : Nat} {data : Bytes}
    (herror : (a.receiveAt offset data).result = .error cause) :
    a.FailsInReceive cause (a.receiveAt offset data) := by
  unfold Assembler.receiveAt at herror ⊢
  split at herror
  case h_1 e hload =>
    cases herror
    exact absurd (scratch_of_load_error hload) (hscratch a)
  case h_2 a' hload =>
    have horderly := h.load hload
    obtain ⟨scratch, -, rfl⟩ := load_eq_ok hload
    exact ⟨_, offset, data.length, [], horderly, rfl, herror, rfl, rfl, List.forall_mem_nil _⟩

theorem Orderly.failsInReceive_of_receive (h : a.Orderly) {data : Bytes}
    (herror : (a.receive data).result = .error cause) : a.FailsInReceive cause (a.receive data) :=
  h.failsInReceive_of_receiveAt hscratch herror

theorem Orderly.failsInReceive_of_receiveAllAt (h : a.Orderly) (receives : List (Nat × Bytes))
    (herror : (a.receiveAllAt receives).result = .error cause) :
    a.FailsInReceive cause (a.receiveAllAt receives) := by
  -- Receives that succeed have told of no message dropped, so they may stand in front of the one that fails.
  induction receives generalizing a with
  | nil => cases herror
  | cons receive receives ih =>
    obtain ⟨start, piece⟩ := receive
    rw [receiveAllAt] at herror ⊢
    cases hresult : (a.receiveAt start piece).result with
    | error e =>
      simp only [hresult] at herror ⊢
      cases herror
      exact h.failsInReceive_of_receiveAt hscratch hresult
    | ok =>
      simp only [hresult] at herror ⊢
      obtain ⟨hobserved, told, hevents, hquiet⟩ := h.quiet_of_receiveAt hresult
      obtain ⟨b, offset, received, later, horderly, hb, hb', hassembler, hlater, hquiet'⟩ :=
        ih (h.receiveAt start piece) herror
      refine ⟨b, offset, received, told ++ later, horderly, hb.trans hobserved, hb', hassembler, ?_,
        fun event hevent => ?_⟩
      · rw [hevents, hlater, heard_eq hobserved, heard_append, List.append_assoc]
      · exact (List.mem_append.mp hevent).elim (hquiet event) (hquiet' event)

/-- An operation that fails, but not for want of a scratch buffer, has failed in a receive. -/
theorem Orderly.failsInReceive (h : a.Orderly) {op : Operation} (herror : (a.perform op).result = .error cause) :
    a.FailsInReceive cause (a.perform op) := by
  cases op with
  | load offset data =>
    rw [Assembler.perform] at herror
    cases hload : a.load offset data with
    | error e =>
      rw [hload] at herror
      cases herror
      exact absurd (scratch_of_load_error hload) (hscratch a)
    | ok a' =>
      rw [hload] at herror
      cases herror
  | processAt offset received =>
    exact ⟨a, offset, received, [], h, rfl, herror, rfl, rfl, List.forall_mem_nil _⟩
  | feed data =>
    change (a.feed data).result = _ at herror
    show a.FailsInReceive cause (a.feed data)
    unfold Assembler.feed at herror ⊢
    split at herror
    case h_1 e hnone =>
      cases herror
      exact absurd hnone (hscratch a)
    case h_2 =>
      rw [receiveAll_eq_receiveAllAt] at herror ⊢
      exact h.failsInReceive_of_receiveAllAt hscratch _ herror
  | reset =>
    rw [Assembler.perform, Assembler.reset] at herror
    split at herror
    all_goals cases herror
  | dispose => cases herror
  | setMaxMessageSize max => cases herror
  | observe observed => cases herror

end FailsInReceive

theorem FailsInReceive.poisons {r : Reaction} (h : a.FailsInReceive (.overflow payload overhead) r) : a.Poisons r := by
  obtain ⟨b, offset, received, told, horderly, hobserved, herror, hassembler, hevents, hquiet⟩ := h
  obtain ⟨hgone, before, hbefore, hcleared⟩ := horderly.poisons_of_processAt herror
  refine ⟨hassembler ▸ hgone, told ++ before, ?_, fun event hevent => ?_⟩
  · rw [hevents, hbefore, heard_eq hobserved, ← heard_append, List.append_assoc]
  · exact (List.mem_append.mp hevent).elim (hquiet event) (hcleared event)

end Assembler

/-! ### Receivers -/

namespace Receiver

variable {r : Receiver} {cause e : MessageError}

theorem answers_of_next {answer : Except MessageError Message} {r' : Receiver} (h : r.next = (answer, r')) (n : Nat) :
    r.answers (n + 1) = (answer :: (r'.answers n).1, (r'.answers n).2) := by
  rw [answers, h]

/-- A receiver that has nothing to hand out, and reads nothing. -/
structure Spent (cause : MessageError) (r : Receiver) : Prop where
  ready : r.ready = []
  deferred : r.deferred? = none
  gone : r.assembler.Gone cause

theorem Spent.next_eq (h : r.Spent cause) : r.next = (.error cause, r) := by
  rw [next, prepare, h.ready, h.deferred]
  simp only [h.gone.scratch]

theorem Spent.answers_eq (h : r.Spent cause) (n : Nat) : r.answers n = (List.replicate n (.error cause), r) := by
  induction n with
  | zero => rfl
  | succ n ih => rw [answers_of_next h.next_eq, ih, List.replicate_succ]

/-- What a receiver still has to say: the messages that wait, the error behind them, and then only refusals. -/
def remainder (messages : List Message) (e cause : MessageError) (count : Nat) :
    List (Except MessageError Message) := messages.map .ok ++ .error e :: List.replicate count (.error cause)

/-- A receiver says what it has to say, and leaves the stream alone. -/
theorem answers_of_gone (hdeferred : r.deferred? = some e) (h : r.assembler.Gone cause) {n k : Nat}
    (hle : n ≤ k + 1) :
    (r.answers n).1 = (remainder r.ready e cause k).take n ∧ (r.answers n).2.source = r.source := by
  induction n generalizing r with
  | zero => exact ⟨rfl, rfl⟩
  | succ n ih =>
    cases hready : r.ready with
    | nil =>
      have hrest := Spent.answers_eq (r := { r with deferred? := none }) ⟨hready, rfl, h⟩ n
      rw [answers_of_next (next_of_deferred hready hdeferred), hrest]
      refine ⟨?_, rfl⟩
      rw [remainder, List.map_nil, List.nil_append, List.take_succ_cons, List.take_replicate,
        Nat.min_eq_left (by omega)]
    | cons m messages =>
      have hrest := ih (r := { r with ready := messages }) hdeferred h (by omega)
      rw [answers_of_next (next_of_ready hready)]
      refine ⟨?_, hrest.2⟩
      rw [remainder, List.map_cons, List.cons_append, List.take_succ_cons, ← remainder, hrest.1]

theorem held_of_prepare {capacity : Nat} (h : r.prepare = .ok capacity) : r.ready = [] ∧ r.deferred? = none := by
  unfold prepare at h
  split at h
  · cases h
  · cases h
  · next hready hdeferred => exact ⟨hready, hdeferred⟩

theorem answers_of_fatal {capacity : Nat} {data : Bytes} {source : Source} {payload overhead : UInt32}
    (h : r.assembler.Orderly) (hprepare : r.prepare = .ok capacity)
    (hread : r.source.read capacity = (.ok data, source)) (hne : data ≠ [])
    (hresult : (r.assembler.receive data).result = .error (.overflow payload overhead)) (n : Nat) :
    (r.answers (n + 1)).1
        = (remainder ((r.assembler.receive data).deliveries.map (·.message)) (.overflow payload overhead) .poisoned
          n).take (n + 1)
      ∧ (r.answers (n + 1)).2.source = source := by
  obtain ⟨hready, hdeferred⟩ := held_of_prepare hprepare
  have hfails := h.failsInReceive_of_receive (fun _ => Assembler.scratch_ne_overflow) hresult
  have hdeferred' : (r.take data source).deferred? = some (.overflow payload overhead) := by
    rw [take]
    simp only [hresult]
  have hready' : (r.take data source).ready = (r.assembler.receive data).deliveries.map (·.message) := by
    rw [take, hready]
    rfl
  have hanswers := answers_of_gone hdeferred' hfails.poisons.gone (Nat.le_refl (n + 1))
  rw [hready'] at hanswers
  have hsame : r.answers (n + 1) = (r.take data source).answers (n + 1) := by
    rw [answers, answers, next_of_data hprepare hne hread]
  rw [hsame]
  exact hanswers

/-- A receiver whose assembler keeps order, and is poisoned by the time that a fatal error is held back. -/
structure Orderly (r : Receiver) : Prop where
  assembler : r.assembler.Orderly
  deferred : ∀ payload overhead, r.deferred? = some (.overflow payload overhead) → r.assembler.Gone .poisoned

theorem Orderly.take (h : r.Orderly) (data : Bytes) (source : Source) : (r.take data source).Orderly := by
  refine ⟨h.assembler.receiveAt 0 data, fun payload overhead hdeferred => ?_⟩
  have hresult : (r.assembler.receive data).result = .error (.overflow payload overhead) := by
    rw [Receiver.take] at hdeferred
    cases hreceive : (r.assembler.receive data).result with
    | ok => simp [hreceive] at hdeferred
    | error e => simpa [hreceive] using hdeferred
  exact (h.assembler.failsInReceive_of_receive (fun _ => Assembler.scratch_ne_overflow) hresult).poisons.gone

theorem Orderly.finish (h : r.Orderly) :
    r.finish.2.Orderly ∧ ∀ payload overhead, r.finish.1 ≠ .overflow payload overhead := by
  unfold Receiver.finish
  simp only
  split
  · exact ⟨h, fun _ _ he => nomatch he⟩
  · refine ⟨⟨h.assembler.reset, fun payload overhead hdeferred => ?_⟩, fun _ _ he => nomatch he⟩
    have hgone := h.deferred payload overhead hdeferred
    rw [hgone.reset_eq]
    exact hgone

theorem Orderly.prepare (h : r.Orderly) {answer : Except MessageError Message × Receiver}
    (hanswer : r.prepare = .error answer) : answer.2.Orderly
      ∧ ∀ payload overhead, answer.1 = .error (.overflow payload overhead) → answer.2.Spent .poisoned := by
  unfold Receiver.prepare at hanswer
  split at hanswer
  case h_1 =>
    cases hanswer
    exact ⟨⟨h.assembler, h.deferred⟩, fun _ _ he => nomatch he⟩
  case h_2 e hready hdeferred =>
    cases hanswer
    refine ⟨⟨h.assembler, fun _ _ he => nomatch he⟩, fun payload overhead he => ?_⟩
    cases he
    exact ⟨hready, rfl, h.deferred payload overhead hdeferred⟩
  case h_3 =>
    split at hanswer
    case h_1 e hscratch =>
      cases hanswer
      refine ⟨h, fun payload overhead he => ?_⟩
      cases he
      exact absurd hscratch Assembler.scratch_ne_overflow
    case h_2 => cases hanswer

theorem Orderly.next (h : r.Orderly) : r.next.2.Orderly
    ∧ ∀ payload overhead, r.next.1 = .error (.overflow payload overhead) → r.next.2.Spent .poisoned := by
  refine next_induction (motive := Orderly) (fun r answer hanswer h => h.prepare hanswer)
    (fun r e h => ⟨h, fun _ _ he => nomatch he⟩) (fun r h => ⟨h.finish.1, fun payload overhead he => ?_⟩)
    (fun r source h => ⟨h.assembler, h.deferred⟩) (fun r data source h => h.take data source) r h
  exact absurd (Except.error.inj he) (h.finish.2 payload overhead)

theorem answers_add (r : Receiver) (n k : Nat) :
    r.answers (n + k) = ((r.answers n).1 ++ ((r.answers n).2.answers k).1, ((r.answers n).2.answers k).2) := by
  induction n generalizing r with
  | zero => rw [Nat.zero_add, answers, List.nil_append]
  | succ n ih =>
    obtain ⟨answer, r', hnext⟩ : ∃ answer r', r.next = (answer, r') := ⟨_, _, rfl⟩
    rw [Nat.add_right_comm, answers_of_next hnext, answers_of_next hnext, ih]
    rfl

theorem Orderly.answers (h : r.Orderly) (n : Nat) : (r.answers n).2.Orderly := by
  induction n generalizing r with
  | zero => exact h
  | succ n ih => exact ih h.next.1

/-- **A fatal error is answered once.** Behind it a receiver only refuses, and changes no more. -/
theorem Orderly.answers_of_overflow (h : r.Orderly) {n : Nat} {earlier : List (Except MessageError Message)}
    {payload overhead : UInt32} (hlast : (r.answers n).1 = earlier ++ [.error (.overflow payload overhead)]) (k : Nat) :
    r.answers (n + k)
      = (earlier ++ .error (.overflow payload overhead) :: List.replicate k (.error .poisoned), (r.answers n).2) := by
  have hspent : (r.answers n).2.Spent .poisoned := by
    cases n with
    | zero => simp [Receiver.answers] at hlast
    | succ n =>
      rw [answers_add r n 1] at hlast ⊢
      have hanswer := List.append_inj_right' hlast rfl
      exact (h.answers n).next.2 payload overhead (List.singleton_inj.mp hanswer)
  rw [answers_add, hspent.answers_eq, hlast, List.append_assoc]
  rfl

end Receiver

namespace Assembler

/-- **Poisoned and disposed assemblers stay so**: no event is made known from then on. A receiver tells the fatal error
once, behind the messages in front of it. -/
theorem absorbed_after (layout : Layout) (remote : String) (settings : AssemblerSettings) (ops : List Operation) :
    let a := (ofSettings layout remote settings).after ops
    (∀ op payload overhead, (a.perform op).result = .error (.overflow payload overhead) →
        let r := a.perform op
        (a.observed = true → ∃ before, r.events = before ++ [.progress .cleared]
            ∧ ∀ event ∈ before, event.isCleared = false)
          ∧ (a.observed = false → ∀ event ∈ r.events, event.isDelivery = true)
          ∧ ∀ later, .dispose ∉ later →
            let b := r.assembler.after later
            b.state = .poisoned ∧ ∀ op', (b.perform op').events = []
              ∧ (op'.needsScratch = true → (b.perform op').result = .error .poisoned))
      ∧ (∀ later, let b := a.dispose.after later
        b.state = .disposed ∧ ∀ op', (b.perform op').events = []
          ∧ (op'.needsScratch = true → (b.perform op').result = .error .disposed))
      ∧ ∀ (r : Receiver) (payload overhead : UInt32), r.assembler = a →
        (∀ capacity data source, r.prepare = .ok capacity →
          r.source.read capacity = (.ok data, source) → data ≠ [] →
          (a.receive data).result = .error (.overflow payload overhead) →
          ∀ n, (r.answers (n + 1)).1
              = (Receiver.remainder ((a.receive data).deliveries.map (·.message)) (.overflow payload overhead)
                .poisoned n).take (n + 1)
            ∧ (r.answers (n + 1)).2.source = source)
          ∧ ∀ n earlier, r.deferred? = none →
            (r.answers n).1 = earlier ++ [.error (.overflow payload overhead)] →
            ∀ k, r.answers (n + k)
              = (earlier ++ .error (.overflow payload overhead) :: List.replicate k (.error .poisoned),
                (r.answers n).2) := by
  intro a
  have horderly : a.Orderly := (orderly_of_idle rfl).after ops
  clear_value a
  refine ⟨fun op payload overhead hresult => ?_, fun later => ?_,
    fun r payload overhead hassembler => ⟨fun capacity data source hprepare hread hne hresult n => ?_,
      fun n earlier hdeferred hlast k => ?_⟩⟩
  · have hpoisons := (horderly.failsInReceive (fun _ => scratch_ne_overflow) hresult).poisons
    refine ⟨hpoisons.events_of_observed, hpoisons.events_of_unobserved, fun later hlater => ?_⟩
    have hafter := hpoisons.gone.after fun hmem => absurd hmem hlater
    exact ⟨hafter.state_of_poisoned, hafter.perform⟩
  · have hafter : (a.dispose.after later).Gone .disposed := (gone_of_dispose horderly.ready).after fun _ => rfl
    exact ⟨hafter.state_of_disposed, hafter.perform⟩
  · subst hassembler
    exact Receiver.answers_of_fatal horderly hprepare hread hne hresult n
  · have hreceiver : r.Orderly := by
      refine ⟨hassembler ▸ horderly, fun payload overhead he => ?_⟩
      rw [hdeferred] at he
      cases he
    exact hreceiver.answers_of_overflow hlast k

/-- An envelope whose sizes have no sum, cut in the middle, and the same envelope behind a message of one byte. -/
theorem absorbed_after_unsummable :
    let a := (ofSettings .standard "peer" {}).after [.observe true, .feed [0xff, 0xff, 0xff]]
    let r := a.perform (.feed [0xff, 0x5a, 0x5a, 0x5a, 0x5a, 0, 0])
    let stream : Bytes :=
      [1, 0, 0, 0, 0xa4, 0xa5, 0xa5, 0xa5, 0, 0, 7, 0xff, 0xff, 0xff, 0xff, 0x5a, 0x5a, 0x5a, 0x5a, 0, 0]
    let reader : Receiver :=
      { source := ⟨stream ++ [9, 9], [.give 21]⟩
        assembler := ofSettings .standard "peer" {}
        catalog := .ofSettings {} }
    let slow : Receiver := { reader with source := ⟨stream ++ [9, 9], [.give 14, .fail .interrupted, .give 7]⟩ }
    r.result = .error (.overflow 0xffffffff 10) ∧ (∃ before, r.events = before ++ [.progress .cleared])
      ∧ (r.assembler.after [.reset, .setMaxMessageSize 5, .feed [1]]).state = .poisoned
      ∧ (a.dispose.after [.dispose, .observe true, .feed [1]]).state = .disposed
      ∧ (reader.answers 4).1.map (·.map (·.payload))
        = [.ok [7], .error (.overflow 0xffffffff 10), .error .poisoned, .error .poisoned]
      ∧ (reader.answers 4).2.source.left = [9, 9]
      ∧ ∀ k, (slow.answers (2 + k)).2.source.left = [9, 9] := by
  intro a r stream reader slow
  have hresult : r.result = .error (.overflow 0xffffffff 10) := by decide +kernel
  have hreceive : (reader.assembler.receive stream).result = .error (.overflow 0xffffffff 10) := by decide +kernel
  obtain ⟨hpoison, hdispose, -⟩ := absorbed_after .standard "peer" {} [.observe true, .feed [0xff, 0xff, 0xff]]
  obtain ⟨hevents, -, hlater⟩ := hpoison (.feed [0xff, 0x5a, 0x5a, 0x5a, 0x5a, 0, 0]) _ _ hresult
  obtain ⟨before, hbefore, -⟩ := hevents (by decide +kernel)
  obtain ⟨-, -, hreader⟩ := absorbed_after .standard "peer" {} []
  have hread : reader.source.read 65536 = (.ok stream, ⟨[9, 9], []⟩) := by decide +kernel
  obtain ⟨hanswers, hsource⟩ := (hreader reader _ _ rfl).1 65536 stream _ rfl hread
    (List.cons_ne_nil _ _) hreceive 3
  have hlast : (slow.answers 2).1 = (slow.answers 1).1 ++ [.error (.overflow 0xffffffff 10)] := by decide +kernel
  have hrest : (slow.answers 2).2.source.left = [9, 9] := by decide +kernel
  refine ⟨hresult, ⟨before, hbefore⟩, (hlater _ (by simp)).1, (hdispose _).1, ?_, ?_, fun k => ?_⟩
  · rw [hanswers]
    decide +kernel
  · rw [hsource]
  · rw [(hreader slow _ _ rfl).2 2 _ rfl hlast k]
    exact hrest

end Assembler

end MessageWire
