import MessageWire.Proofs.Framing.Renewal
/-!
# What observers are told

The log of a receive is told by its deliveries and by how it ends (`Assembler.log_exact`): before each delivery that the
message is whole, and at the end what is kept, or that it was dropped. A step either completes a message or takes all
there is (`Intake.tells_of_step`), so that what is kept is told once, by the last one.

From the log alone it shows how far the message at hand has come: the numbers told rise from one to the next until it
is given out or dropped, and stay below its size once that is known (`Rises`).
-/

namespace MessageWire

/-! ### Logs of whole messages -/

/-- What is told when a message is given out. -/
def Delivery.log (d : Delivery) : List Event :=
  [.progress ⟨some d.message.envelope, d.message.envelope.total, d.message.envelope.total⟩, .delivery d]

/-! ### Numbers that rise -/

/-- The numbers told rise from `n` to `m`, and from nothing again behind a message that is given out or dropped, within
what is expected. -/
inductive Rises : Nat → List Event → Nat → Prop
  | done (n : Nat) : Rises n [] n
  | told {n m : Nat} {p : Progress} {events : List Event} (more : n < p.received)
      (within : p.envelope? ≠ none → p.received ≤ p.expected) (later : Rises p.received events m) :
      Rises n (.progress p :: events) m
  | given {n m : Nat} {events : List Event} (d : Delivery) (later : Rises 0 events m) :
      Rises n (.delivery d :: events) m
  | dropped {n m : Nat} {events : List Event} (later : Rises 0 events m) :
      Rises n (.progress .cleared :: events) m

theorem Rises.append {n m k : Nat} {events later : List Event} (h : Rises n events m) (hlater : Rises m later k) :
    Rises n (events ++ later) k := by
  induction h with
  | done n => exact hlater
  | told more within _ ih => exact .told more within (ih hlater)
  | given d _ ih => exact .given d (ih hlater)
  | dropped _ ih => exact .dropped (ih hlater)

theorem Delivery.rises_log {d : Delivery} {n : Nat} (h : n < d.message.envelope.total) : Rises n d.log 0 :=
  .told h (fun _ => Nat.le_refl _) (.given d (.done 0))

theorem Pending.Sound.rises {l : Layout} {remote : String} {pending : Pending} (h : pending.Sound l remote) {n : Nat}
    (hmore : n < pending.length) : Rises n [.progress pending.progress] pending.length := by
  cases h with
  | idle => exact absurd hmore (Nat.not_lt_zero n)
  | header nonempty short => exact .told hmore (fun hne => absurd rfl hne) (.done _)
  | body whole short total_eq check envelope_eq => exact .told hmore (fun _ => Nat.le_of_lt short) (.done _)

namespace Intake

variable {i : Intake} {pending : Pending} {fresh : Bool} {held window : Bytes} {advance : Advance}

/-- What is told at the end of a run that had `window` to take in, unless it failed. -/
def Run.closing (run : Run) (window : Bytes) : List Event :=
  match run.result with
  | .error _ => []
  | .ok () => if window = [] ∨ run.pending = .idle then [] else [.progress run.pending.progress]

/-- A step that completes the message at hand, or takes all there is and keeps it. -/
inductive Tells (pending : Pending) (window : Bytes) (advance : Advance) : Prop
  | whole (d : Delivery) (idle : advance.pending = .idle) (events : advance.events = d.log)
      (more : pending.length < d.message.envelope.total)
  | kept (all : advance.consumed = window.length) (waits : advance.pending ≠ .idle)
      (events : advance.events = [.progress advance.pending.progress])
      (more : pending.length < advance.pending.length)

theorem hold_ne_idle (hne : held ≠ []) : i.hold held ≠ .idle := by
  unfold hold
  split
  · exact fun h => nomatch h
  · rw [if_neg hne]
    exact fun h => nomatch h

theorem length_hold (held : Bytes) : (i.hold held).length = held.length := by
  unfold hold
  split
  · rfl
  · split
    case isTrue hnil =>
      subst hnil
      rfl
    case isFalse => rfl

theorem tells_of_assemble (hl : i.framing.layout.Lawful) (hheld : i.framing.decode i.remote held = .ok none)
    (hne : window ≠ []) (hlength : pending.length = held.length) (h : i.assemble held window = .ok advance) :
    Tells pending window advance := by
  unfold assemble at h
  match hdecode : i.framing.decode i.remote (held ++ window) with
  | .error e => simp [hdecode] at h
  | .ok none =>
    simp only [hdecode] at h
    cases h
    have hwhole : held ++ window ≠ [] := by simp [hne]
    refine .kept rfl (hold_ne_idle hwhole) rfl ?_
    have hpos := List.length_pos_iff.mpr hne
    rw [hlength, length_hold, List.length_append]
    omega
  | .ok (some (m, rest)) =>
    simp only [hdecode] at h
    cases h
    refine .whole ⟨m, !held.isEmpty⟩ rfl rfl ?_
    rw [hlength]
    exact Framing.length_lt_of_decode_append hl hheld hdecode

/-- A step from a sound state completes a message or keeps it, and says so. -/
theorem tells_of_step (hl : i.framing.layout.Lawful) (h : pending.Sound i.framing.layout i.remote)
    (hne : window ≠ []) (hstep : i.step pending fresh window = .ok advance) : Tells pending window advance := by
  obtain ⟨e, -, herror⟩ | ⟨ceiling, hheld, hassemble⟩ := step_cases hl h hne fresh
  · rw [hstep] at herror
    cases herror
  · have hlength : pending.length = pending.bytes.length := by cases pending <;> rfl
    exact tells_of_assemble (i := i.allowing ceiling) hl hheld hne hlength (hassemble.symm.trans hstep)

theorem Run.closing_of_whole {run later : Run} {window rest : Bytes} (hresult : run.result = later.result)
    (hpending : run.pending = later.pending) (hne : window ≠ []) (hrest : rest = [] → later.pending = .idle) :
    run.closing window = later.closing rest := by
  unfold closing
  rw [hresult, hpending]
  by_cases hnil : rest = []
  · simp only [hnil, hrest hnil, or_true]
  · simp only [hne, hnil, false_or]

/-- The log of a run: its deliveries, each announced, and what is kept in the end. -/
theorem log_of_runFrom (hl : i.framing.layout.Lawful) (h : pending.Sound i.framing.layout i.remote) (fresh : Bool)
    (window : Bytes) :
    let run := i.runFrom pending fresh window
    (∃ ds : List Delivery, run.events = ds.flatMap Delivery.log ++ run.closing window)
      ∧ ∃ n, Rises pending.length run.events n ∧ (run.result = .ok () → n = run.pending.length) := by
  fun_induction runFrom i pending fresh window with
  | case1 pending fresh =>
    refine ⟨⟨[], ?_⟩, pending.length, .done _, fun _ => rfl⟩
    simp [Run.closing]
  | case2 pending fresh b bs e hstep =>
    refine ⟨⟨[], rfl⟩, pending.length, .done _, fun hok => ?_⟩
    cases hok
  | case3 pending fresh b bs kept events hstep =>
    have hpos := (sound_of_step hl h (List.cons_ne_nil _ _) hstep).1
    exact absurd hpos (Nat.lt_irrefl 0)
  | case4 pending fresh b bs n next events hstep later ih =>
    have hsound := (sound_of_step hl h (List.cons_ne_nil _ _) hstep).2.2
    obtain ⟨⟨ds, hevents⟩, m, hrises, hm⟩ := ih hsound
    cases tells_of_step hl h (List.cons_ne_nil _ _) hstep with
    | whole d idle log more =>
      change next = .idle at idle
      change events = d.log at log
      subst idle log
      refine ⟨⟨d :: ds, ?_⟩, m, (Delivery.rises_log more).append hrises, hm⟩
      have hrest : bs.drop n = [] → later.pending = .idle := by
        intro hnil
        show (i.runFrom .idle false (bs.drop n)).pending = .idle
        rw [hnil, runFrom_nil]
      have hclosing : Run.closing { later with events := d.log ++ later.events } (b :: bs)
          = later.closing (bs.drop n) := Run.closing_of_whole rfl rfl (List.cons_ne_nil b bs) hrest
      rw [hclosing, List.flatMap_cons, List.append_assoc, ← hevents]
    | kept all waits log more =>
      change n + 1 = (b :: bs).length at all
      change next ≠ .idle at waits
      change events = [.progress next.progress] at log
      have hrest : bs.drop n = [] := by
        apply List.drop_of_length_le
        rw [List.length_cons] at all
        omega
      have hlater : later = ⟨.ok (), next, []⟩ := by
        show i.runFrom next false (bs.drop n) = _
        rw [hrest, runFrom_nil]
      refine ⟨⟨[], ?_⟩, next.length, ?_, fun _ => ?_⟩
      · simp [Run.closing, hlater, waits, log]
      · rw [hlater, log]
        exact hsound.rises more
      · rw [hlater]

theorem log_of_run (hl : i.framing.layout.Lawful) (h : pending.Sound i.framing.layout i.remote) (window : Bytes) :
    let run := i.run pending window
    (∃ ds : List Delivery, run.events = ds.flatMap Delivery.log ++ run.closing window)
      ∧ ∃ n, Rises pending.length run.events n ∧ (run.result = .ok () → n = run.pending.length) := by
  unfold run
  split
  case h_1 => exact ⟨⟨[], rfl⟩, 0, .done 0, fun hok => nomatch hok⟩
  case h_2 => exact log_of_runFrom hl h true window

end Intake

/-! ### Receives -/

/-- What is told at the end of a receive of `received` bytes: what is kept, if any came, or that it was dropped. -/
def Reaction.closing (r : Reaction) (received : Nat) : List Event :=
  match r.result, r.assembler.pending with
  | .error _, _ => [.progress .cleared]
  | .ok (), .idle => []
  | .ok (), .header bytes => if received = 0 then [] else [.progress ⟨none, bytes.size, 0⟩]
  | .ok (), .body envelope bytes total =>
    if received = 0 then [] else [.progress ⟨some envelope, bytes.size, total⟩]

/-- The errors with which bytes are turned away unseen. -/
inductive MessageError.TurnsAway : MessageError → Prop
  | disposed : TurnsAway .disposed
  | poisoned : TurnsAway .poisoned
  | scratchOverrun (offset received capacity : Nat) : TurnsAway (.scratchOverrun offset received capacity)

theorem deliveries_log (ds : List Delivery) : (ds.flatMap Delivery.log).filterMap (·.delivery?) = ds := by
  induction ds with
  | nil => rfl
  | cons d ds ih =>
    rw [List.flatMap_cons, List.filterMap_append, ih]
    rfl

theorem Intake.Run.deliveries_closing (run : Run) (window : Bytes) :
    (run.closing window).filterMap (·.delivery?) = [] := by
  unfold closing
  split
  · rfl
  · split <;> rfl

namespace Assembler

variable {a : Assembler} {l : Layout} {remote : String}

theorem heard_of_observed (h : a.observed = true) (events : List Event) : a.heard events = events := by
  rw [heard, h]
  exact List.filter_eq_self.mpr fun _ _ => rfl

theorem pending_afterRun_of_error {run : Intake.Run} {e : MessageError} (h : run.result = .error e) :
    (a.afterRun run).pending = .idle := by
  rw [afterRun, h]
  simp only
  split <;> rfl

theorem turnsAway_of_scratch {e : MessageError} (h : a.scratch = .error e) : e.TurnsAway := by
  rcases state_of_scratch_error h with ⟨rfl, -⟩ | ⟨rfl, -⟩
  · exact .poisoned
  · exact .disposed

/-- A receive that is not turned away has the log of its deliveries, and behind it how the receive ended. -/
theorem Sound.log_of_processAt (h : a.Sound l remote) (hl : l.Lawful) (hobserved : a.observed = true)
    {offset received : Nat} (hseen : ∀ e, (a.processAt offset received).result = .error e → ¬ e.TurnsAway) :
    let r := a.processAt offset received
    r.events = r.deliveries.flatMap Delivery.log ++ r.closing received := by
  rcases a.processAt_cases offset received with ⟨e, heq, hcause⟩ | ⟨scratch, -, -, heq⟩
  · rw [heq] at hseen
    refine absurd ?_ (hseen e rfl)
    rcases hcause with hscratch | ⟨capacity, rfl⟩
    · exact turnsAway_of_scratch hscratch
    · exact .scratchOverrun _ _ _
  · obtain ⟨rfl, rfl, hpending, -⟩ := h
    obtain ⟨⟨ds, hevents⟩, -⟩ := Intake.log_of_run (i := a.intake) hl hpending (scratch.window offset received)
    have hwindow : scratch.window offset received = [] ↔ received = 0 := by
      rw [← List.length_eq_zero_iff, Scratch.window_eq, List.length_map, List.length_range]
    simp only at heq
    rw [heq]
    generalize a.intake.run a.pending (scratch.window offset received) = run at hevents
    rw [heard_of_observed hobserved]
    have hdeliveries : run.events.filterMap (·.delivery?) = ds := by
      rw [hevents, List.filterMap_append, deliveries_log, run.deliveries_closing, List.append_nil]
    obtain ⟨result, pending, events⟩ := run
    cases result with
    | error e =>
      have hgiven : (events ++ [Event.progress .cleared]).filterMap (·.delivery?) = ds := by
        rw [List.filterMap_append, hdeliveries]
        exact List.append_nil ds
      change events = ds.flatMap Delivery.log ++ [] at hevents
      show events ++ [.progress .cleared]
        = ((events ++ [Event.progress .cleared]).filterMap (·.delivery?)).flatMap Delivery.log ++ [.progress .cleared]
      rw [hgiven, hevents, List.append_nil]
    | ok =>
      have hclosing : Intake.Run.closing ⟨.ok (), pending, events⟩ (scratch.window offset received)
          = Reaction.closing ⟨.ok (), events, { a with pending }⟩ received := by
        cases pending <;> simp [Intake.Run.closing, Reaction.closing, hwindow, Pending.progress]
      show events = (events.filterMap (·.delivery?)).flatMap Delivery.log
        ++ Reaction.closing ⟨.ok (), events, { a with pending }⟩ received
      rw [hdeliveries, ← hclosing]
      exact hevents

/-! ### Numbers that rise over many operations -/

/-- A reaction that tells rising numbers, up to what is pending afterwards. -/
structure Follows (a : Assembler) (r : Reaction) : Prop where
  rises : Rises a.pending.length r.events r.assembler.pending.length
  observed : r.assembler.observed = true

theorem follows_nothing (hobserved : a.observed = true) (result : Except MessageError Unit) :
    a.Follows ⟨result, [], a⟩ := ⟨.done _, hobserved⟩

theorem Sound.follows_processAt (h : a.Sound l remote) (hl : l.Lawful) (hobserved : a.observed = true)
    (offset received : Nat) : a.Follows (a.processAt offset received) := by
  rcases a.processAt_cases offset received with ⟨e, heq, -⟩ | ⟨scratch, -, -, heq⟩
  · rw [heq]
    exact follows_nothing hobserved _
  · obtain ⟨rfl, rfl, hpending, -⟩ := h
    obtain ⟨-, n, hrises, hn⟩ := Intake.log_of_run (i := a.intake) hl hpending (scratch.window offset received)
    simp only at heq
    rw [heq]
    generalize a.intake.run a.pending (scratch.window offset received) = run at hrises hn
    refine ⟨?_, (observed_afterRun a run).trans hobserved⟩
    rw [heard_of_observed hobserved]
    obtain ⟨result, pending, events⟩ := run
    cases result with
    | error e =>
      rw [pending_afterRun_of_error rfl]
      exact hrises.append (.dropped (.done 0))
    | ok =>
      obtain rfl := hn rfl
      exact hrises

theorem Follows.trans {r later : Reaction} {result : Except MessageError Unit} (h : a.Follows r)
    (hlater : r.assembler.Follows later) : a.Follows ⟨result, r.events ++ later.events, later.assembler⟩ :=
  ⟨h.rises.append hlater.rises, hlater.observed⟩

theorem Sound.follows_receive (h : a.Sound l remote) (hl : l.Lawful) (hobserved : a.observed = true) (data : Bytes) :
    a.Follows (a.receive data) := by
  unfold Assembler.receive
  split
  case h_1 => exact follows_nothing hobserved _
  case h_2 a' hload =>
    have hsound := h.load hload
    obtain ⟨scratch, -, rfl⟩ := load_eq_ok hload
    obtain ⟨hrises, hobserved'⟩ := hsound.follows_processAt hl hobserved 0 data.length
    exact ⟨hrises, hobserved'⟩

theorem Sound.follows_receiveAll (h : a.Sound l remote) (hl : l.Lawful) (hobserved : a.observed = true)
    (pieces : List Bytes) : a.Follows (a.receiveAll pieces) := by
  induction pieces generalizing a with
  | nil => exact follows_nothing hobserved _
  | cons piece pieces ih =>
    have hpiece := h.follows_receive hl hobserved piece
    rw [receiveAll]
    split
    case h_1 => exact hpiece
    case h_2 => exact hpiece.trans (ih (h.receive hl piece) hpiece.observed)

/-- Every operation that goes on observing and keeps the assembler tells rising numbers. -/
theorem Sound.follows_perform (h : a.Sound l remote) (hl : l.Lawful) (hobserved : a.observed = true) {op : Operation}
    (hobserve : op ≠ .observe false) (hdispose : op ≠ .dispose) : a.Follows (a.perform op) := by
  cases op with
  | load offset data =>
    rw [perform]
    cases hload : a.load offset data with
    | error e => exact follows_nothing hobserved _
    | ok a' =>
      obtain ⟨scratch, -, rfl⟩ := load_eq_ok hload
      exact ⟨.done _, hobserved⟩
  | processAt offset received => exact h.follows_processAt hl hobserved offset received
  | feed data =>
    rw [perform, feed]
    split
    · exact follows_nothing hobserved _
    · exact h.follows_receiveAll hl hobserved _
  | reset =>
    rw [perform, Assembler.reset]
    split
    · exact follows_nothing hobserved _
    · refine ⟨?_, hobserved⟩
      rw [heard_of_observed hobserved]
      exact .dropped (.done 0)
  | dispose => exact absurd rfl hdispose
  | setMaxMessageSize max => exact ⟨.done _, hobserved⟩
  | observe observed =>
    cases observed with
    | true => exact ⟨.done _, rfl⟩
    | false => exact absurd rfl hobserve

/-- All that is told and given out through some operations. -/
def log (a : Assembler) (ops : List Operation) : List Event := (a.observations ops).flatMap (·.events)

theorem log_cons (a : Assembler) (op : Operation) (ops : List Operation) :
    a.log (op :: ops) = (a.perform op).events ++ (a.perform op).assembler.log ops := rfl

theorem Gone.log_eq (h : a.Gone .disposed) (ops : List Operation) : a.log ops = [] := by
  induction ops generalizing a with
  | nil => rfl
  | cons op ops ih =>
    rw [log_cons, (h.perform op).1, ih (h.step fun _ => rfl)]
    rfl

/-- An observer that is there all the time is told rising numbers, whatever is done with the assembler. -/
theorem Sound.rises_log (h : a.Sound l remote) (hl : l.Lawful) (hobserved : a.observed = true) {ops : List Operation}
    (hops : .observe false ∉ ops) : ∃ n, Rises a.pending.length (a.log ops) n := by
  induction ops generalizing a with
  | nil => exact ⟨_, .done _⟩
  | cons op ops ih =>
    have hop : op ≠ .observe false := fun heq => hops (heq ▸ List.mem_cons_self)
    have hlater : .observe false ∉ ops := fun hmem => hops (List.mem_cons_of_mem op hmem)
    rw [log_cons]
    by_cases hdispose : op = .dispose
    · subst hdispose
      have hgone : a.dispose.Gone .disposed := gone_of_dispose h.ready
      refine ⟨a.pending.length, ?_⟩
      rw [show (a.perform .dispose).assembler.log ops = [] from hgone.log_eq ops]
      exact .done _
    · obtain ⟨hrises, hobserved'⟩ := h.follows_perform hl hobserved hop hdispose
      obtain ⟨n, hn⟩ := ih (h.after hl [op]) hobserved' hlater
      exact ⟨n, hrises.append hn⟩

/-- **The log of an observer is exact**: each message is told right before it is given out, and at the end what is kept
or dropped. -/
theorem log_exact (remote : String) (settings : AssemblerSettings) (ops : List Operation) :
    let a := (ofSettings .standard remote settings).after ops
    a.observed = true →
      (∀ offset received,
        let r := a.processAt offset received
        (∀ e, r.result = .error e → ¬ e.TurnsAway) →
          r.events = r.deliveries.flatMap Delivery.log ++ r.closing received)
        ∧ ∀ later, .observe false ∉ later → ∃ n, Rises a.pending.length (a.log later) n := by
  intro a hobserved
  have hl : Layout.standard.Lawful := Layout.standard_lawful
  have hsound : a.Sound .standard remote := (sound_ofSettings .standard remote settings).after hl ops
  refine ⟨?_, ?_⟩
  · intro offset received r hseen
    exact hsound.log_of_processAt hl hobserved hseen
  · intro later hlater
    exact hsound.rises_log hl hobserved hlater

/-- A message of three bytes whose first five bytes came before, and the first four of the next one. -/
theorem log_exact_of_two_messages :
    let first : Bytes := [3, 0, 0, 0, 0xa6, 0xa5, 0xa5, 0xa5, 0, 0, 1, 2, 3]
    let a := (ofSettings .standard "peer" {}).after [.observe true, .load 0 (first ++ first), .processAt 0 5]
    let r := a.processAt 5 12
    a.pending.length = 5 ∧ r.deliveries.map (·.message.payload) = [[1, 2, 3]]
      ∧ r.events = r.deliveries.flatMap Delivery.log ++ [.progress ⟨none, 4, 0⟩]
      ∧ ∃ n, Rises 5 (a.log [.processAt 5 12, .reset]) n := by
  intro first a r
  have hlength : a.pending.length = 5 := by decide +kernel
  have hobserved : a.observed = true := by decide +kernel
  have hok : r.result = .ok () := by decide +kernel
  have hclosing : r.closing 12 = [.progress ⟨none, 4, 0⟩] := by decide +kernel
  obtain ⟨hlog, hrises⟩ := log_exact "peer" {} [.observe true, .load 0 (first ++ first), .processAt 0 5] hobserved
  refine ⟨hlength, by decide +kernel, ?_, ?_⟩
  · rw [← hclosing]
    apply hlog
    intro e he
    change r.result = .error e at he
    rw [hok] at he
    cases he
  · have hall := hrises [.processAt 5 12, .reset] (by decide)
    rwa [show Pending.length _ = 5 from hlength] at hall

end Assembler

end MessageWire
