import MessageWire.Message.Recycling
import MessageWire.Proofs.Framing.Renewal
/-!
# Buffers do not show

The memory of a buffer that is used again still has the bytes of an earlier message. But only the front of it is in use,
and what is put there is put over them (`Buffer.bytes_append`). So an assembler tells the same with such buffers as
without (`Recycler.observations_eq`): each step does, and so does each operation.

The memory that is kept for the next message is bounded by the threshold of the settings
(`Recycler.capacity_spare_le`), and a poisoned or disposed assembler keeps none (`Recycler.Thrifty.after`).
-/

namespace MessageWire

/-! ### Bytes in use -/

namespace Buffer

variable (g : Growth) (b : Buffer) (data : Bytes)

@[simp] theorem bytes_clear : b.clear.bytes = [] := List.take_zero

@[simp] theorem bytes_reserve (grown needed : Nat) : (b.reserve grown needed).bytes = b.bytes := by
  unfold reserve
  split
  · rfl
  · exact List.take_left' b.length_bytes

@[simp] theorem bytes_append : (b.append g data).bytes = b.bytes ++ data := by
  obtain ⟨room, hroom⟩ : ∃ room,
      b.reserve (g.appending b.capacity (b.length + data.length)) (b.length + data.length) = room := ⟨_, rfl⟩
  have hfront : room.memory.take b.length = b.bytes := by
    have hlength : room.length = b.length := by rw [← hroom, length_reserve]
    rw [← hlength]
    exact (congrArg bytes hroom).symm.trans (bytes_reserve b _ _)
  have hlength : (b.bytes ++ data).length = b.length + data.length := by rw [List.length_append, length_bytes]
  rw [bytes, append]
  simp only [hroom, overwrite, hfront]
  exact List.take_left' hlength

@[simp] theorem length_append : (b.append g data).length = b.length + data.length := rfl

theorem toArray_bytes_append : (b.append g data).bytes.toArray = b.bytes.toArray.appendList data := by
  rw [bytes_append]
  simp

end Buffer

/-! ### Taking in bytes -/

def AdvanceIn.shown (a : AdvanceIn) : Advance := ⟨a.consumed, a.held.pending, a.events⟩

def Intake.RunIn.shown (r : Intake.RunIn) : Intake.Run := ⟨r.result, r.held.pending, r.events⟩

namespace Intake

variable (g : Growth) (i : Intake) (spare : Buffer)

theorem shown_keepHeader (buffer : Buffer) (consumed : Nat) :
    (AdvanceIn.keepHeader buffer spare consumed).shown = keepHeader buffer.bytes.toArray consumed := by
  rw [keepHeader, List.size_toArray, Buffer.length_bytes]
  rfl

theorem beginIn_eq (fresh : Bool) (window : Bytes) :
    (i.beginIn g spare fresh window).map AdvanceIn.shown = i.begin fresh window := by
  have hstashed : (AdvanceIn.keepHeader (spare.clear.append g window) .empty window.length).shown
      = keepHeader window.toArray window.length := by
    rw [shown_keepHeader, Buffer.bytes_append, Buffer.bytes_clear, List.nil_append]
  unfold beginIn begin
  cases i.framing.measure window with
  | error e => rfl
  | ok measured =>
    cases measured with
    | none =>
      simp only
      split
      · rfl
      · exact congrArg Except.ok hstashed
    | some found =>
      simp only
      split
      · exact congrArg Except.ok hstashed
      · split
        · rfl
        · -- The spare buffer is empty, so that what is put into it is all of the message.
          simp [Except.map, AdvanceIn.shown, Held.pending, show spare.clear.length = 0 from rfl]

theorem extendBodyIn_eq (envelope : Envelope) (buffer : Buffer) (total : Nat) (window : Bytes) :
    (extendBodyIn g spare envelope buffer total window).map AdvanceIn.shown
      = extendBody envelope buffer.bytes.toArray total window := by
  unfold extendBodyIn extendBody
  simp only [← Buffer.toArray_bytes_append g, List.size_toArray, Buffer.length_bytes]
  split
  · rfl
  · split
    · rfl
    · rfl

theorem shown_after (got : Except MessageError AdvanceIn) (n : Nat) :
    (got.map (AdvanceIn.after n)).map AdvanceIn.shown = (got.map AdvanceIn.shown).map (Advance.after n) := by
  cases got with
  | error e => rfl
  | ok a => rfl

theorem extendHeaderIn_eq (buffer : Buffer) (window : Bytes) :
    (i.extendHeaderIn g spare buffer window).map AdvanceIn.shown = i.extendHeader buffer.bytes.toArray window := by
  unfold extendHeaderIn extendHeader
  simp only [← Buffer.toArray_bytes_append g, List.size_toArray, Buffer.length_bytes]
  cases i.framing.measure (buffer.append g (window.take (i.framing.layout.minimum - buffer.length))).bytes with
  | error e => rfl
  | ok measured =>
    cases measured with
    | none =>
      simp only
      split
      · exact congrArg Except.ok (shown_keepHeader spare _ _)
      · rfl
    | some found =>
      simp only
      split
      · exact congrArg Except.ok (shown_keepHeader spare _ _)
      · rw [shown_after, extendBodyIn_eq, Buffer.bytes_reserve]

theorem stepIn_eq (held : Held) (fresh : Bool) (window : Bytes) :
    (i.stepIn g held spare fresh window).map AdvanceIn.shown = i.step held.pending fresh window := by
  cases held with
  | idle => exact beginIn_eq g i spare fresh window
  | header buffer => exact extendHeaderIn_eq g i spare buffer window
  | body envelope buffer total => exact extendBodyIn_eq g spare envelope buffer total window

theorem step_of_stepIn {held : Held} {fresh : Bool} {window : Bytes} {got : Except MessageError AdvanceIn}
    (h : i.stepIn g held spare fresh window = got) : i.step held.pending fresh window = got.map AdvanceIn.shown := by
  rw [← h, stepIn_eq]

theorem runFromIn_eq (held : Held) (fresh : Bool) (window : Bytes) :
    (i.runFromIn g held spare fresh window).shown = i.runFrom held.pending fresh window := by
  -- One induction for both runs, as each step takes in as many bytes here as there.
  fun_induction i.runFromIn g held spare fresh window with
  | case1 held spare fresh =>
    rw [runFrom]
    rfl
  | case2 held spare fresh b bs e hstep =>
    rw [runFrom, step_of_stepIn g i spare hstep]
    rfl
  | case3 held spare fresh b bs held' spare' events hstep =>
    rw [runFrom, step_of_stepIn g i spare hstep]
    rfl
  | case4 held spare fresh b bs n held' spare' events hstep later ih =>
    rw [runFrom, step_of_stepIn g i spare hstep]
    simp only [Except.map, AdvanceIn.shown, ← ih]
    rfl

theorem runIn_eq (held : Held) (window : Bytes) : (i.runIn g held spare window).shown = i.run held.pending window := by
  cases held with
  | idle =>
    cases window with
    | nil => rfl
    | cons b bs => exact runFromIn_eq g i spare .idle true (b :: bs)
  | header buffer => exact runFromIn_eq g i spare (.header buffer) true window
  | body envelope buffer total => exact runFromIn_eq g i spare (.body envelope buffer total) true window

end Intake

/-! ### Operations -/

/-- What shows of what a recycler makes of an operation. -/
def Recycled.shown (r : Recycled) : Reaction := ⟨r.result, r.events, r.recycler.shown⟩

namespace Recycler

variable (g : Growth) (r : Recycler)

theorem shown_afterRun (run : Intake.RunIn) : (r.afterRun run).shown = r.shown.afterRun run.shown := by
  obtain ⟨result, held, spare, events⟩ := run
  unfold afterRun Assembler.afterRun
  cases result with
  | error e =>
    simp only [Intake.RunIn.shown]
    split
    · rfl
    · rfl
  | ok done => rfl

theorem shown_load (offset : Nat) (data : Bytes) : (r.load offset data).map shown = r.shown.load offset data := by
  rw [load, Assembler.load]
  cases r.shown.scratch with
  | error e => rfl
  | ok scratch => rfl

theorem shown_processAt (offset received : Nat) :
    (r.processAt g offset received).shown = r.shown.processAt offset received := by
  unfold processAt Assembler.processAt
  cases r.shown.scratch with
  | error e => rfl
  | ok scratch =>
    simp only
    split
    · rfl
    · have hrun := Intake.runIn_eq g r.shown.intake r.spare r.held (scratch.window offset received)
      rw [show r.shown.pending = r.held.pending from rfl, ← hrun, ← shown_afterRun]
      rfl

theorem shown_receive (data : Bytes) : (r.receive g data).shown = r.shown.receive data := by
  unfold receive Assembler.receive
  rw [← shown_load]
  cases r.load 0 data with
  | error e => rfl
  | ok r' => exact shown_processAt g r' 0 data.length

theorem shown_receiveAll (receives : List Bytes) :
    (r.receiveAll g receives).shown = r.shown.receiveAll receives := by
  induction receives generalizing r with
  | nil => rfl
  | cons data rest ih =>
    rw [receiveAll, Assembler.receiveAll, ← shown_receive g]
    cases hresult : (r.receive g data).result with
    | error e => simp only [Recycled.shown, hresult]
    | ok done =>
      simp only [Recycled.shown, hresult, ← ih]

theorem shown_feed (data : Bytes) : (r.feed g data).shown = r.shown.feed data := by
  unfold feed Assembler.feed
  cases r.shown.scratch with
  | error e => rfl
  | ok scratch => exact shown_receiveAll g r (Assembler.receives scratch.capacity data)

theorem shown_reset : r.reset.shown = r.shown.reset := by
  unfold reset Assembler.reset
  rw [show r.shown.pending = r.held.pending from rfl]
  cases r.held with
  | idle => rfl
  | header buffer => rfl
  | body envelope buffer total => rfl

theorem shown_dispose : r.dispose.shown = r.shown.dispose := by
  unfold dispose Assembler.dispose
  rw [show r.shown.storage = r.storage from rfl]
  cases r.storage with
  | ready scratch => rfl
  | poisoned => rfl
  | disposed => rfl

def perform : Operation → Recycled
  | .load offset data =>
    match r.load offset data with
    | .error e => ⟨.error e, [], r⟩
    | .ok r' => ⟨.ok (), [], r'⟩
  | .processAt offset received => r.processAt g offset received
  | .feed data => r.feed g data
  | .reset => r.reset
  | .dispose => ⟨.ok (), [], r.dispose⟩
  | .setMaxMessageSize max => ⟨.ok (), [], r.setMaxMessageSize max⟩
  | .observe observed => ⟨.ok (), [], r.observe observed⟩

def after (r : Recycler) : List Operation → Recycler
  | [] => r
  | op :: ops => (r.perform g op).recycler.after ops

def observations (r : Recycler) : List Operation → List Observation
  | [] => []
  | op :: ops => (r.perform g op).shown.observation :: (r.perform g op).recycler.observations ops

/-- **An operation** has the same result with buffers as without, and makes the same events known. -/
theorem shown_perform (op : Operation) : (r.perform g op).shown = r.shown.perform op := by
  cases op with
  | load offset data =>
    rw [perform, Assembler.perform, ← shown_load]
    cases r.load offset data with
    | error e => rfl
    | ok r' => rfl
  | processAt offset received => exact shown_processAt g r offset received
  | feed data => exact shown_feed g r data
  | reset => exact shown_reset r
  | dispose => exact congrArg (Reaction.mk (.ok ()) []) (shown_dispose r)
  | setMaxMessageSize max => rfl
  | observe observed => rfl

theorem shown_after (ops : List Operation) : (r.after g ops).shown = r.shown.after ops := by
  induction ops generalizing r with
  | nil => rfl
  | cons op ops ih =>
    rw [after, Assembler.after, ih, ← shown_perform g]
    rfl

/-- **Buffers do not show**, whatever an earlier message left in them. -/
theorem observations_eq (ops : List Operation) : r.observations g ops = r.shown.observations ops := by
  induction ops generalizing r with
  | nil => rfl
  | cons op ops ih =>
    rw [observations, Assembler.observations, ih, ← shown_perform g]
    rfl

/-- Two recyclers that are the same but for their buffers show the same. -/
theorem observations_of_alike {r r' : Recycler} {capacity : Nat} {known : Nat → Prop}
    (h : Assembler.Alike capacity known r.shown r'.shown) {ops : List Operation}
    (hops : Operation.Supplied capacity known ops) (g' : Growth) :
    r.observations g ops = r'.observations g' ops := by
  rw [observations_eq, observations_eq, h.observations_eq ops hops]

/-- A recycler that waits for a message shows what a new one does, even if its spare buffer is full of old bytes. -/
theorem observations_of_waits {layout : Layout} {remote : String} (h : r.shown.Waits)
    (hmade : r.shown.MadeFor layout remote) {known : Nat → Prop}
    (hzero : ∀ scratch i, r.storage = .ready scratch → known i → scratch.byte i = 0) {ops : List Operation}
    (hops : Operation.Supplied (max r.settings.scratchCapacity 1) known ops) (g' : Growth) :
    r.observations g ops
      = { ofSettings layout remote r.settings with observed := r.observed }.observations g' ops :=
  observations_of_alike g (h.alike_new hmade hzero) hops g'

end Recycler

/-! ### Memory that is kept -/

namespace Intake

variable {g : Growth} {i : Intake} {spare : Buffer} {a : AdvanceIn} {window : Bytes}

theorem spare_beginIn {fresh : Bool} (h : i.beginIn g spare fresh window = .ok a) :
    a.spare = spare ∨ a.spare = .empty := by
  unfold beginIn at h
  cases hmeasure : i.framing.measure window with
  | error e =>
    rw [hmeasure] at h
    cases h
  | ok measured =>
    rw [hmeasure] at h
    cases measured with
    | none =>
      simp only at h
      split at h
      · cases h
      · cases h
        exact .inr rfl
    | some found =>
      simp only at h
      split at h
      · cases h
        exact .inr rfl
      · split at h
        · cases h
          exact .inl rfl
        · cases h
          exact .inr rfl

theorem spare_extendBodyIn {envelope : Envelope} {buffer : Buffer} {total : Nat}
    (h : extendBodyIn g spare envelope buffer total window = .ok a) : a.spare = spare := by
  unfold extendBodyIn at h
  split at h
  · cases h
  · simp only at h
    split at h
    · cases h
      rfl
    · cases h
      rfl

theorem spare_extendHeaderIn {buffer : Buffer} (h : i.extendHeaderIn g spare buffer window = .ok a) :
    a.spare = spare := by
  unfold extendHeaderIn at h
  simp only at h
  split at h
  · cases h
  · split at h
    · cases h
      rfl
    · cases h
  · split at h
    · cases h
      rfl
    · generalize hbody : extendBodyIn g spare _ _ _ _ = body at h
      cases body with
      | error e => cases h
      | ok body =>
        cases h
        exact (spare_extendBodyIn hbody : body.spare = spare)

/-- A step takes the spare buffer or leaves it. It puts none in its place. -/
theorem spare_stepIn {held : Held} {fresh : Bool} (h : i.stepIn g held spare fresh window = .ok a) :
    a.spare = spare ∨ a.spare = .empty := by
  cases held with
  | idle => exact spare_beginIn h
  | header buffer => exact .inl (spare_extendHeaderIn h)
  | body envelope buffer total => exact .inl (spare_extendBodyIn h)

theorem spare_runFromIn (held : Held) (fresh : Bool) :
    (i.runFromIn g held spare fresh window).spare = spare
      ∨ (i.runFromIn g held spare fresh window).spare = .empty := by
  fun_induction i.runFromIn g held spare fresh window with
  | case1 held spare fresh => exact .inl rfl
  | case2 held spare fresh b bs e hstep => exact .inl rfl
  | case3 held spare fresh b bs held' spare' events hstep => exact spare_stepIn hstep
  | case4 held spare fresh b bs n held' spare' events hstep later ih =>
    rcases ih with hlater | hlater
    · exact (spare_stepIn hstep).imp hlater.trans hlater.trans
    · exact .inr hlater

theorem spare_runIn (held : Held) :
    (i.runIn g held spare window).spare = spare ∨ (i.runIn g held spare window).spare = .empty := by
  unfold runIn
  split
  · exact .inl rfl
  · exact spare_runFromIn held true

end Intake

namespace Recycler

/-- No more memory is kept than the settings allow, and none once no message can come any more. -/
structure Thrifty (r : Recycler) : Prop where
  capacity_le : r.spare.capacity ≤ r.settings.largeBufferThreshold
  released : (∀ scratch, r.storage ≠ .ready scratch) → r.held = .idle ∧ r.spare = .empty

variable {g : Growth} {r : Recycler}

theorem thrifty_ofSettings (layout : Layout) (remote : String) (settings : AssemblerSettings) :
    (ofSettings layout remote settings).Thrifty :=
  ⟨Nat.zero_le _, fun hstorage => absurd rfl (hstorage _)⟩

theorem capacity_recycle (h : r.Thrifty) (buffer : Buffer) :
    (r.recycle buffer).capacity ≤ r.settings.largeBufferThreshold := by
  unfold recycle
  split
  case isTrue => exact h.capacity_le
  case isFalse hsmall =>
    split
    · exact Nat.le_of_not_lt hsmall
    · exact h.capacity_le

theorem Thrifty.load (h : r.Thrifty) {r' : Recycler} {offset : Nat} {data : Bytes}
    (hload : r.load offset data = .ok r') : r'.Thrifty := by
  unfold Recycler.load at hload
  cases hscratch : r.shown.scratch with
  | error e =>
    rw [hscratch] at hload
    cases hload
  | ok scratch =>
    rw [hscratch] at hload
    cases hload
    exact ⟨h.capacity_le, fun hstorage => absurd rfl (hstorage _)⟩

theorem Thrifty.afterRun (h : r.Thrifty) {scratch : Scratch} (hready : r.storage = .ready scratch)
    {run : Intake.RunIn} (hspare : run.spare = r.spare ∨ run.spare = .empty) : (r.afterRun run).Thrifty := by
  have hcapacity : run.spare.capacity ≤ r.settings.largeBufferThreshold := by
    rcases hspare with hspare | hspare
    · rw [hspare]
      exact h.capacity_le
    · rw [hspare]
      exact Nat.zero_le _
  unfold Recycler.afterRun
  split
  · split
    · exact ⟨Nat.zero_le _, fun _ => ⟨rfl, rfl⟩⟩
    · exact ⟨hcapacity, fun hstorage => absurd hready (hstorage scratch)⟩
  · exact ⟨hcapacity, fun hstorage => absurd hready (hstorage scratch)⟩

theorem Thrifty.processAt (h : r.Thrifty) (offset received : Nat) :
    (r.processAt g offset received).recycler.Thrifty := by
  unfold Recycler.processAt
  split
  · exact h
  case h_2 scratch hscratch =>
    split
    · exact h
    · exact h.afterRun (Assembler.storage_of_scratch hscratch) (Intake.spare_runIn r.held)

theorem Thrifty.receive (h : r.Thrifty) (data : Bytes) : (r.receive g data).recycler.Thrifty := by
  unfold Recycler.receive
  split
  case h_1 => exact h
  case h_2 r' hload => exact (h.load hload).processAt 0 data.length

theorem Thrifty.receiveAll (h : r.Thrifty) (receives : List Bytes) :
    (r.receiveAll g receives).recycler.Thrifty := by
  induction receives generalizing r with
  | nil => exact h
  | cons data rest ih =>
    rw [Recycler.receiveAll]
    simp only
    split
    · exact h.receive data
    · exact ih (h.receive data)

theorem Thrifty.feed (h : r.Thrifty) (data : Bytes) : (r.feed g data).recycler.Thrifty := by
  unfold Recycler.feed
  split
  · exact h
  · exact h.receiveAll _

theorem Thrifty.reset (h : r.Thrifty) : r.reset.recycler.Thrifty := by
  unfold Recycler.reset
  split
  case h_1 => exact h
  case h_2 buffer hbuffer =>
    -- What is held is given up only where something is held, and nothing is where no message can come any more.
    refine ⟨capacity_recycle h buffer, fun hstorage => ?_⟩
    obtain ⟨hidle, -⟩ := h.released hstorage
    rw [hidle] at hbuffer
    cases hbuffer

theorem Thrifty.dispose (h : r.Thrifty) : r.dispose.Thrifty := by
  unfold Recycler.dispose
  split
  · exact h
  · exact ⟨Nat.zero_le _, fun _ => ⟨rfl, rfl⟩⟩

theorem Thrifty.perform (h : r.Thrifty) (op : Operation) : (r.perform g op).recycler.Thrifty := by
  cases op with
  | load offset data =>
    rw [Recycler.perform]
    cases hload : r.load offset data with
    | error e => exact h
    | ok r' => exact h.load hload
  | processAt offset received => exact h.processAt offset received
  | feed data => exact h.feed data
  | reset => exact h.reset
  | dispose => exact h.dispose
  | setMaxMessageSize max => exact ⟨h.capacity_le, h.released⟩
  | observe observed => exact ⟨h.capacity_le, h.released⟩

theorem Thrifty.after (h : r.Thrifty) (ops : List Operation) : (r.after g ops).Thrifty := by
  induction ops generalizing r with
  | nil => exact h
  | cons op ops ih => exact ih (h.perform op)

/-- **The memory that is kept** for the next message never exceeds the threshold that the assembler was made with. -/
theorem capacity_spare_le (layout : Layout) (remote : String) (settings : AssemblerSettings) (ops : List Operation) :
    ((ofSettings layout remote settings).after g ops).spare.capacity ≤ settings.largeBufferThreshold := by
  have hthrifty := (thrifty_ofSettings layout remote settings).after (g := g) ops
  have hsettings := Assembler.settings_after (ofSettings layout remote settings).shown ops
  rw [← shown_after g] at hsettings
  calc ((ofSettings layout remote settings).after g ops).spare.capacity
      ≤ ((ofSettings layout remote settings).after g ops).settings.largeBufferThreshold := hthrifty.capacity_le
    _ = settings.largeBufferThreshold := (congrArg AssemblerSettings.largeBufferThreshold hsettings :)

end Recycler

end MessageWire
