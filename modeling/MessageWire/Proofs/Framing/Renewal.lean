import MessageWire.Proofs.Framing.Absorption
/-!
# Assemblers that start anew

A message that is refused leaves nothing behind but old bytes in the scratch buffer: what was pending is dropped with
it, and the next message that has to be kept starts with none. So what an assembler shows from then on is what a new one
shows that gets the same bytes.

That is a statement about two runs. They go side by side as long as the two assemblers are the same but for bytes of
the scratch buffer that have not come since (`Assembler.Alike`), and every operation keeps them so if it takes in no
others (`Assembler.Alike.perform`).
-/

namespace MessageWire

/-! ### Bytes of the scratch buffer -/

namespace Scratch

variable {s s' : Scratch} {offset i : Nat} {data : Bytes}

/-- The byte at a position of the scratch buffer. -/
def byte (s : Scratch) (i : Nat) : UInt8 := s.written[i]?.getD 0

theorem window_eq (s : Scratch) (offset count : Nat) :
    s.window offset count = (List.range count).map fun k => s.byte (offset + k) := by
  apply List.ext_getElem?
  intro k
  unfold window byte
  simp only
  grind

theorem byte_put (hi : i < s.capacity) :
    (s.put offset data).byte i
      = if offset ≤ i ∧ i < offset + data.length then data[i - offset]?.getD 0 else s.byte i := by
  have hlen : (data.take (s.capacity - offset)).length = min (s.capacity - offset) data.length := List.length_take
  unfold put
  split
  case h_1 hnil =>
    rw [hnil, List.length_nil] at hlen
    rw [if_neg (by omega)]
  case h_2 =>
    -- What stands in front of `data`: bytes that were there, and zeros as far as these do not reach.
    obtain ⟨front, hfront⟩ : ∃ front, s.written.take offset
        ++ List.replicate (offset - (s.written.take offset).length) 0 = front := ⟨_, rfl⟩
    have hfrontLen : front.length = offset := by
      rw [← hfront, List.length_append, List.length_replicate, List.length_take]
      omega
    have hbefore : i < offset → front[i]?.getD 0 = s.byte i := by
      intro hlt
      rw [← hfront, byte]
      grind
    simp only [hfront]
    by_cases hfore : i < offset
    · rw [if_neg (by omega), ← hbefore hfore, byte, List.append_assoc, List.getElem?_append_left (by omega)]
    · by_cases hin : i < offset + data.length
      · rw [if_pos ⟨by omega, hin⟩, byte, List.getElem?_append_left (by rw [List.length_append]; omega),
          List.getElem?_append_right (by omega), hfrontLen, List.getElem?_take_of_lt (by omega)]
      · rw [if_neg (by omega), byte, List.getElem?_append_right (by rw [List.length_append]; omega),
          List.getElem?_drop, List.length_append, hfrontLen, byte]
        congr 2
        omega

/-- Two scratch buffers of one size with the same bytes at the positions that are known. -/
structure Agrees (capacity : Nat) (known : Nat → Prop) (s s' : Scratch) : Prop where
  capacity_eq : s.capacity = capacity
  capacity_eq' : s'.capacity = capacity
  byte_eq : ∀ i, i < capacity → known i → s.byte i = s'.byte i

variable {capacity : Nat} {known : Nat → Prop}

theorem Agrees.put (h : Agrees capacity known s s') (offset : Nat) (data : Bytes) :
    Agrees capacity (fun i => known i ∨ offset ≤ i ∧ i < offset + data.length) (s.put offset data)
      (s'.put offset data) := by
  refine ⟨(capacity_put _ _ _).trans h.capacity_eq,
    (capacity_put _ _ _).trans h.capacity_eq', fun i hi hknown => ?_⟩
  rw [byte_put (h.capacity_eq ▸ hi), byte_put (h.capacity_eq' ▸ hi)]
  split
  case isTrue => rfl
  case isFalse hout => exact h.byte_eq i hi (hknown.resolve_right hout)

theorem Agrees.window_eq (h : Agrees capacity known s s') {offset count : Nat} (hroom : offset + count ≤ capacity)
    (hknown : ∀ i, offset ≤ i → i < offset + count → known i) :
    s.window offset count = s'.window offset count := by
  rw [Scratch.window_eq, Scratch.window_eq]
  apply List.map_congr_left
  intro k hk
  rw [List.mem_range] at hk
  exact h.byte_eq _ (by omega) (hknown _ (by omega) (by omega))

end Scratch

/-- Scratch buffers that agree, or are missing for the same reason. -/
inductive Storage.Agrees (capacity : Nat) (known : Nat → Prop) : Storage → Storage → Prop where
  | ready {s s' : Scratch} : Scratch.Agrees capacity known s s' → Agrees capacity known (.ready s) (.ready s')
  | poisoned : Agrees capacity known .poisoned .poisoned
  | disposed : Agrees capacity known .disposed .disposed

/-! ### What an assembler shows -/

/-- What shows of an operation: its result and its events, the deliveries among them, and where the assembler stands
afterwards. -/
structure Observation where
  result : Except MessageError Unit
  events : List Event
  state : ReceiveState
  pendingLength : Nat
  pendingTotal? : Option Nat

def Reaction.observation (r : Reaction) : Observation :=
  ⟨r.result, r.events, r.assembler.state, r.assembler.pending.length, r.assembler.pending.total?⟩

namespace Assembler

def observations (a : Assembler) : List Operation → List Observation
  | [] => []
  | op :: ops => (a.perform op).observation :: (a.perform op).assembler.observations ops

end Assembler

namespace Operation

/-- The positions of the scratch buffer that an operation puts bytes at. -/
def Writes (i : Nat) : Operation → Prop
  | load offset data => offset ≤ i ∧ i < offset + data.length
  | feed data => i < data.length
  | _ => False

/-- Whether an operation takes in no bytes but those at positions that are `known`. What does not lie inside the
scratch buffer is refused anyway. -/
def ReadsWithin (capacity : Nat) (known : Nat → Prop) : Operation → Prop
  | processAt offset received =>
    offset + received ≤ capacity → ∀ i, offset ≤ i → i < offset + received → known i
  | _ => True

/-- Whether all bytes that some operations take in have come by then: they are known before, or one of the operations
puts them where another takes them in. -/
def Supplied (capacity : Nat) (known : Nat → Prop) : List Operation → Prop
  | [] => True
  | op :: ops => op.ReadsWithin capacity known ∧ Supplied capacity (fun i => known i ∨ op.Writes i) ops

end Operation

namespace Assembler

variable {a b : Assembler} {capacity : Nat} {known : Nat → Prop}

/-! ### Two runs side by side -/

/-- Two assemblers that are the same but for bytes of the scratch buffer at positions that are not known. -/
structure Alike (capacity : Nat) (known : Nat → Prop) (a b : Assembler) : Prop where
  layout_eq : a.layout = b.layout
  remote_eq : a.remote = b.remote
  settings_eq : a.settings = b.settings
  pending_eq : a.pending = b.pending
  observed_eq : a.observed = b.observed
  storage : Storage.Agrees capacity known a.storage b.storage

/-- Two reactions that show the same and leave assemblers alike. -/
structure SameReaction (capacity : Nat) (known : Nat → Prop) (r r' : Reaction) : Prop where
  result_eq : r.result = r'.result
  events_eq : r.events = r'.events
  alike : Alike capacity known r.assembler r'.assembler

theorem Alike.state_eq (h : Alike capacity known a b) : a.state = b.state := by
  unfold state
  rw [h.pending_eq]
  have hstorage := h.storage
  generalize a.storage = storage, b.storage = storage' at hstorage
  cases hstorage
  all_goals
    cases b.pending
    all_goals rfl

theorem SameReaction.observation_eq {r r' : Reaction} (h : SameReaction capacity known r r') :
    r.observation = r'.observation := by
  rw [Reaction.observation, h.result_eq, h.events_eq, h.alike.state_eq, h.alike.pending_eq, Reaction.observation]

theorem Alike.mono {fewer : Nat → Prop} (h : Alike capacity known a b)
    (hsub : ∀ i, i < capacity → fewer i → known i) :
    Alike capacity fewer a b := by
  refine ⟨h.layout_eq, h.remote_eq, h.settings_eq, h.pending_eq, h.observed_eq, ?_⟩
  have hstorage := h.storage
  generalize a.storage = storage, b.storage = storage' at hstorage
  cases hstorage with
  | ready hs =>
    exact .ready ⟨hs.capacity_eq, hs.capacity_eq', fun i hi hfewer => hs.byte_eq i hi (hsub i hi hfewer)⟩
  | poisoned => exact .poisoned
  | disposed => exact .disposed

theorem SameReaction.mono {r r' : Reaction} {fewer : Nat → Prop} (h : SameReaction capacity known r r')
    (hsub : ∀ i, i < capacity → fewer i → known i) : SameReaction capacity fewer r r' :=
  ⟨h.result_eq, h.events_eq, h.alike.mono hsub⟩

theorem Alike.refused (h : Alike capacity known a b) (e : MessageError) :
    SameReaction capacity known ⟨.error e, [], a⟩ ⟨.error e, [], b⟩ := ⟨rfl, rfl, h⟩

theorem Alike.scratch (h : Alike capacity known a b) :
    (∃ e, a.scratch = .error e ∧ b.scratch = .error e)
      ∨ ∃ s s', a.scratch = .ok s ∧ b.scratch = .ok s' ∧ Scratch.Agrees capacity known s s' := by
  unfold Assembler.scratch
  have hstorage := h.storage
  generalize a.storage = storage, b.storage = storage' at hstorage
  cases hstorage with
  | ready hs => exact .inr ⟨_, _, rfl, rfl, hs⟩
  | poisoned => exact .inl ⟨.poisoned, rfl, rfl⟩
  | disposed => exact .inl ⟨.disposed, rfl, rfl⟩

/-- Where there is no scratch buffer, every byte of it may count as known. -/
theorem Alike.of_missing (h : Alike capacity known a b) {e : MessageError} (ha : a.scratch = .error e)
    (more : Nat → Prop) : Alike capacity more a b := by
  refine ⟨h.layout_eq, h.remote_eq, h.settings_eq, h.pending_eq, h.observed_eq, ?_⟩
  unfold Assembler.scratch at ha
  have hstorage := h.storage
  generalize a.storage = storage, b.storage = storage' at ha hstorage
  cases hstorage with
  | ready hs => cases ha
  | poisoned => exact .poisoned
  | disposed => exact .disposed

theorem Alike.load (h : Alike capacity known a b) (offset : Nat) (data : Bytes) :
    (∃ e, a.load offset data = .error e ∧ b.load offset data = .error e)
      ∨ ∃ a' b', a.load offset data = .ok a' ∧ b.load offset data = .ok b'
        ∧ Alike capacity (fun i => known i ∨ offset ≤ i ∧ i < offset + data.length) a' b' := by
  rw [Assembler.load, Assembler.load]
  rcases h.scratch with ⟨e, ha, hb⟩ | ⟨s, s', ha, hb, hs⟩
  all_goals rw [ha, hb]
  · exact .inl ⟨e, rfl, rfl⟩
  · exact .inr ⟨_, _, rfl, rfl, h.layout_eq, h.remote_eq, h.settings_eq, h.pending_eq, h.observed_eq,
      .ready (hs.put offset data)⟩

theorem Alike.afterRun (h : Alike capacity known a b) (run : Intake.Run) :
    Alike capacity known (a.afterRun run) (b.afterRun run) := by
  unfold Assembler.afterRun
  split
  · split
    · exact ⟨h.layout_eq, h.remote_eq, h.settings_eq, rfl, h.observed_eq, .poisoned⟩
    · exact ⟨h.layout_eq, h.remote_eq, h.settings_eq, rfl, h.observed_eq, h.storage⟩
  · exact ⟨h.layout_eq, h.remote_eq, h.settings_eq, rfl, h.observed_eq, h.storage⟩

/-- A receive of bytes that are known has the same effect on both. -/
theorem Alike.processAt (h : Alike capacity known a b) {offset received : Nat}
    (hknown : offset + received ≤ capacity → ∀ i, offset ≤ i → i < offset + received → known i) :
    SameReaction capacity known (a.processAt offset received) (b.processAt offset received) := by
  have hintake : a.intake = b.intake := by
    rw [intake, framing, h.layout_eq, h.settings_eq, h.remote_eq, intake, framing]
  rw [Assembler.processAt, Assembler.processAt]
  rcases h.scratch with ⟨e, ha, hb⟩ | ⟨s, s', ha, hb, hs⟩
  all_goals rw [ha, hb]
  · exact h.refused e
  · simp only [hs.capacity_eq, hs.capacity_eq']
    by_cases hroom : offset + received ≤ capacity
    · have hnot : ¬ offset + received > capacity := by omega
      rw [if_neg hnot, if_neg hnot, hs.window_eq hroom (hknown hroom), hintake, h.pending_eq]
      exact ⟨rfl, congrFun (heard_eq h.observed_eq) _, h.afterRun _⟩
    · have hover : offset + received > capacity := by omega
      rw [if_pos hover, if_pos hover]
      exact h.refused _

theorem Alike.receive (h : Alike capacity known a b) (data : Bytes) :
    SameReaction capacity (fun i => known i ∨ i < data.length) (a.receive data) (b.receive data) := by
  rw [Assembler.receive, Assembler.receive]
  rcases h.load 0 data with ⟨e, ha, hb⟩ | ⟨a', b', ha, hb, h'⟩
  all_goals rw [ha, hb]
  · exact (h.of_missing (scratch_of_load_error ha) _).refused e
  · have hknown : ∀ i, 0 ≤ i → i < 0 + data.length → known i ∨ 0 ≤ i ∧ i < 0 + data.length :=
      fun i hi hlt => .inr ⟨hi, hlt⟩
    exact (h'.processAt fun _ => hknown).mono fun i _ hi => hi.imp_right fun hlt => ⟨Nat.zero_le i, by omega⟩

/-- Of the bytes that come receive by receive, those of the first receive are known at least. -/
theorem Alike.receiveAll (h : Alike capacity known a b) (pieces : List Bytes) :
    SameReaction capacity (fun i => known i ∨ ∃ piece ∈ pieces.head?, i < piece.length) (a.receiveAll pieces)
      (b.receiveAll pieces) := by
  induction pieces generalizing known a b with
  | nil => exact ⟨rfl, rfl, h.mono fun i _ hi => hi.resolve_right (by simp)⟩
  | cons piece pieces ih =>
    have hnow := h.receive piece
    rw [Assembler.receiveAll, Assembler.receiveAll, hnow.result_eq]
    cases (b.receive piece).result with
    | error e => exact hnow.mono fun i _ hi => by simpa using hi
    | ok =>
      have hlater := ih hnow.alike
      refine ⟨hlater.result_eq, ?_, hlater.alike.mono fun i _ hi => .inl (by simpa using hi)⟩
      show _ ++ _ = _ ++ _
      rw [hnow.events_eq, hlater.events_eq]

theorem head?_receives {data : Bytes} (hpos : 0 < capacity) :
    (receives capacity data).head? = some (data.take capacity) := by
  unfold receives
  split
  case isTrue hle => rw [List.head?_cons, List.take_of_length_le hle]
  case isFalse hlong =>
    have hlen : (data.take capacity).length = capacity := by
      rw [List.length_take]
      omega
    have hblocks : blocks capacity data = data.take capacity :: blocks capacity (data.drop capacity) := by
      rw [← blocks_append _ hpos hlen, List.take_append_drop]
    simp only [hblocks]
    split
    all_goals rfl

theorem Alike.feed (h : Alike capacity known a b) (data : Bytes) :
    SameReaction capacity (fun i => known i ∨ i < data.length) (a.feed data) (b.feed data) := by
  rw [Assembler.feed, Assembler.feed]
  rcases h.scratch with ⟨e, ha, hb⟩ | ⟨s, s', ha, hb, hs⟩
  all_goals rw [ha, hb]
  · exact (h.of_missing ha _).refused e
  · simp only [hs.capacity_eq, hs.capacity_eq']
    -- However much is fed, its first receive already reaches every position that any of them reaches.
    refine (h.receiveAll (receives capacity data)).mono fun i hi hknown => hknown.imp_right fun hlt => ?_
    refine ⟨data.take capacity, head?_receives (by omega), ?_⟩
    rw [List.length_take]
    omega

theorem Alike.reset (h : Alike capacity known a b) : SameReaction capacity known a.reset b.reset := by
  have hcleared : Alike capacity known { a with pending := .idle } { b with pending := .idle } :=
    ⟨h.layout_eq, h.remote_eq, h.settings_eq, rfl, h.observed_eq, h.storage⟩
  rw [Assembler.reset, Assembler.reset, h.pending_eq]
  cases b.pending with
  | idle => exact ⟨rfl, rfl, h⟩
  | header received => exact ⟨rfl, congrFun (heard_eq h.observed_eq) _, hcleared⟩
  | body envelope received total => exact ⟨rfl, congrFun (heard_eq h.observed_eq) _, hcleared⟩

theorem Alike.dispose (h : Alike capacity known a b) : Alike capacity known a.dispose b.dispose := by
  unfold Assembler.dispose
  have hstorage := h.storage
  generalize hsa : a.storage = storage, hsb : b.storage = storage' at hstorage
  cases hstorage with
  | ready hs => exact ⟨h.layout_eq, h.remote_eq, h.settings_eq, rfl, rfl, .disposed⟩
  | poisoned => exact ⟨h.layout_eq, h.remote_eq, h.settings_eq, rfl, rfl, .disposed⟩
  | disposed => exact h

/-- **One operation** has the same effect on both, if it takes in no bytes but known ones. What it puts into the scratch
buffer is known afterwards. -/
theorem Alike.perform (h : Alike capacity known a b) (op : Operation) (hop : op.ReadsWithin capacity known) :
    SameReaction capacity (fun i => known i ∨ op.Writes i) (a.perform op) (b.perform op) := by
  have hsame : (∀ i, ¬ op.Writes i) → SameReaction capacity known (a.perform op) (b.perform op) →
      SameReaction capacity (fun i => known i ∨ op.Writes i) (a.perform op) (b.perform op) :=
    fun hwrites hreact => hreact.mono fun i _ hi => hi.resolve_right (hwrites i)
  cases op with
  | load offset data =>
    rw [Assembler.perform, Assembler.perform]
    rcases h.load offset data with ⟨e, ha, hb⟩ | ⟨a', b', ha, hb, h'⟩
    all_goals rw [ha, hb]
    · exact (h.of_missing (scratch_of_load_error ha) _).refused e
    · exact ⟨rfl, rfl, h'⟩
  | feed data => exact h.feed data
  | processAt offset received => exact hsame (fun _ => id) (h.processAt hop)
  | reset => exact hsame (fun _ => id) h.reset
  | dispose => exact hsame (fun _ => id) ⟨rfl, rfl, h.dispose⟩
  | setMaxMessageSize max =>
    refine hsame (fun _ => id) ⟨rfl, rfl, h.layout_eq, h.remote_eq, ?_, h.pending_eq, h.observed_eq, h.storage⟩
    show ({ a.settings with maxMessageSize := max } : AssemblerSettings) = { b.settings with maxMessageSize := max }
    rw [h.settings_eq]
  | observe observed =>
    exact hsame (fun _ => id) ⟨rfl, rfl, h.layout_eq, h.remote_eq, h.settings_eq, h.pending_eq, rfl, h.storage⟩

theorem Alike.observations_eq (h : Alike capacity known a b) (ops : List Operation)
    (hops : Operation.Supplied capacity known ops) : a.observations ops = b.observations ops := by
  -- What is known grows with every operation.
  induction ops generalizing known a b with
  | nil => rfl
  | cons op ops ih =>
    obtain ⟨hop, hlater⟩ := hops
    have hreact := h.perform op hop
    rw [observations, observations, hreact.observation_eq, ih hreact.alike hlater]

/-! ### Where an assembler starts anew -/

/-- The failures of a message that is refused. -/
inductive Rejection : MessageError → Prop where
  | tooShort (received minimum : Nat) : Rejection (.tooShort received minimum)
  | checkMismatch (payload check expected : UInt32) : Rejection (.checkMismatch payload check expected)
  | oversized (size max : Nat) : Rejection (.oversized size max)

variable {e : MessageError} {layout : Layout} {remote : String}

theorem Rejection.not_scratch (h : Rejection e) (a : Assembler) : a.scratch ≠ .error e := by
  intro hscratch
  rcases state_of_scratch_error hscratch with ⟨rfl, -⟩ | ⟨rfl, -⟩
  all_goals cases h

def Waits (a : Assembler) : Prop := a.pending = .idle ∧ ∃ scratch, a.storage = .ready scratch

theorem waits_of_processAt (he : Rejection e) {offset received : Nat}
    (h : (a.processAt offset received).result = .error e) : (a.processAt offset received).assembler.Waits := by
  rcases a.processAt_cases offset received with
    ⟨e', heq, hscratch | ⟨room, rfl⟩⟩ | ⟨scratch, hstorage, -, heq⟩
  · rw [heq] at h
    cases h
    exact absurd hscratch (he.not_scratch a)
  · rw [heq] at h
    cases h
    cases he
  · simp only at heq
    rw [heq] at h ⊢
    have hresult : (a.intake.run a.pending (scratch.window offset received)).result = .error e := h
    have hfatal : e.isFatal = false := by
      cases he
      all_goals rfl
    simp only [Assembler.afterRun, hresult, hfatal]
    exact ⟨rfl, scratch, hstorage⟩

theorem waits_of_perform (horderly : a.Orderly) (he : Rejection e) {op : Operation}
    (h : (a.perform op).result = .error e) : (a.perform op).assembler.Waits := by
  obtain ⟨b, offset, received, -, -, -, herror, hassembler, -, -⟩ := horderly.failsInReceive he.not_scratch h
  rw [hassembler]
  exact waits_of_processAt he herror

theorem waits_of_reset {scratch : Scratch} (h : a.storage = .ready scratch) : a.reset.assembler.Waits := by
  unfold Assembler.reset
  split
  case h_1 hidle => exact ⟨hidle, scratch, h⟩
  case h_2 => exact ⟨rfl, scratch, h⟩

/-- An assembler that was made for a peer, with the scratch buffer that its settings ask for. -/
structure MadeFor (layout : Layout) (remote : String) (a : Assembler) : Prop where
  layout_eq : a.layout = layout
  remote_eq : a.remote = remote
  capacity_eq : ∀ scratch, a.storage = .ready scratch → scratch.capacity = max a.settings.scratchCapacity 1

theorem madeFor_ofSettings (layout : Layout) (remote : String) (settings : AssemblerSettings) :
    (ofSettings layout remote settings).MadeFor layout remote := by
  refine ⟨rfl, rfl, fun scratch hscratch => ?_⟩
  cases hscratch
  rfl

theorem MadeFor.load (h : a.MadeFor layout remote) {a' : Assembler} {offset : Nat} {data : Bytes}
    (hload : a.load offset data = .ok a') : a'.MadeFor layout remote := by
  obtain ⟨scratch, hstorage, rfl⟩ := load_eq_ok hload
  refine ⟨h.layout_eq, h.remote_eq, fun scratch' hscratch => ?_⟩
  cases hscratch
  exact (Scratch.capacity_put scratch offset data).trans (h.capacity_eq scratch hstorage)

theorem MadeFor.afterRun (h : a.MadeFor layout remote) (run : Intake.Run) : (a.afterRun run).MadeFor layout remote := by
  unfold Assembler.afterRun
  split
  · split
    · exact ⟨h.layout_eq, h.remote_eq, fun _ hscratch => nomatch hscratch⟩
    · exact ⟨h.layout_eq, h.remote_eq, h.capacity_eq⟩
  · exact ⟨h.layout_eq, h.remote_eq, h.capacity_eq⟩

theorem MadeFor.processAt (h : a.MadeFor layout remote) (offset received : Nat) :
    (a.processAt offset received).assembler.MadeFor layout remote := by
  rcases a.processAt_cases offset received with ⟨e, heq, -⟩ | ⟨scratch, -, -, heq⟩
  · rw [heq]
    exact h
  · simp only at heq
    rw [heq]
    exact h.afterRun _

theorem MadeFor.reset (h : a.MadeFor layout remote) : a.reset.assembler.MadeFor layout remote := by
  unfold Assembler.reset
  split
  · exact h
  · exact ⟨h.layout_eq, h.remote_eq, h.capacity_eq⟩

theorem MadeFor.dispose (h : a.MadeFor layout remote) : a.dispose.MadeFor layout remote := by
  unfold Assembler.dispose
  split
  · exact h
  · exact ⟨h.layout_eq, h.remote_eq, fun _ hscratch => nomatch hscratch⟩

theorem MadeFor.setMaxMessageSize (h : a.MadeFor layout remote) (max : Nat) :
    (a.setMaxMessageSize max).MadeFor layout remote := ⟨h.layout_eq, h.remote_eq, h.capacity_eq⟩

theorem MadeFor.after (h : a.MadeFor layout remote) (ops : List Operation) : (a.after ops).MadeFor layout remote :=
  after_induction (fun _ _ _ _ hload h => h.load hload) (fun _ offset received h => h.processAt offset received)
    (fun _ h => h.reset) (fun _ h => h.dispose) (fun _ max h => h.setMaxMessageSize max)
    (fun _ _ h => ⟨h.layout_eq, h.remote_eq, h.capacity_eq⟩) ops a h

theorem settings_after (a : Assembler) (ops : List Operation) :
    (a.after ops).settings = { a.settings with maxMessageSize := (a.after ops).settings.maxMessageSize } := by
  refine after_induction
    (motive := fun b => b.settings = { a.settings with maxMessageSize := b.settings.maxMessageSize }) ?_ ?_ ?_ ?_ ?_ ?_
    ops a rfl
  · rintro b b' offset data hload h
    obtain ⟨scratch, -, rfl⟩ := load_eq_ok hload
    exact h
  · intro b offset received h
    rcases b.processAt_cases offset received with ⟨e, heq, -⟩ | ⟨scratch, -, -, heq⟩
    · rw [heq]
      exact h
    · obtain ⟨pending, storage, hafter⟩ := b.afterRun_eq (b.intake.run b.pending (scratch.window offset received))
      simp only at heq
      rw [heq, hafter]
      exact h
  · intro b h
    unfold reset
    split <;> exact h
  · intro b h
    unfold dispose
    split <;> exact h
  · intro b max h
    rw [setMaxMessageSize, h]
  · exact fun b observed h => h

theorem scratchCapacity_after (a : Assembler) (ops : List Operation) :
    (a.after ops).settings.scratchCapacity = a.settings.scratchCapacity := by rw [settings_after]

theorem allowPartial_after (a : Assembler) (ops : List Operation) :
    (a.after ops).settings.allowPartial = a.settings.allowPartial := by rw [settings_after]

theorem Waits.alike_new (h : a.Waits) (hmade : a.MadeFor layout remote)
    (hzero : ∀ scratch i, a.storage = .ready scratch → known i → scratch.byte i = 0) :
    Alike (max a.settings.scratchCapacity 1) known a
      { ofSettings layout remote a.settings with observed := a.observed } := by
  obtain ⟨hidle, scratch, hstorage⟩ := h
  refine ⟨hmade.layout_eq, hmade.remote_eq, rfl, hidle, rfl, ?_⟩
  rw [hstorage]
  exact .ready ⟨hmade.capacity_eq scratch hstorage, rfl, fun i _ hi => hzero scratch i hstorage hi⟩

theorem ready_of_state (hpoisoned : a.state ≠ .poisoned) (hdisposed : a.state ≠ .disposed) :
    ∃ scratch, a.storage = .ready scratch := by
  cases hscratch : a.scratch with
  | ok scratch => exact ⟨scratch, storage_of_scratch hscratch⟩
  | error e =>
    rcases state_of_scratch_error hscratch with ⟨-, hstate⟩ | ⟨-, hstate⟩
    · exact absurd hstate hpoisoned
    · exact absurd hstate hdisposed

/-- **A message that is refused leaves nothing behind**, and neither does one that is given up: from then on an
assembler shows what a new one does. -/
theorem observations_of_renewed (layout : Layout) (remote : String) (settings : AssemblerSettings)
    (before : List Operation) (last : Operation)
    (hpoisoned : ((ofSettings layout remote settings).after before).state ≠ .poisoned)
    (hdisposed : ((ofSettings layout remote settings).after before).state ≠ .disposed)
    (hlast : last = .reset
      ∨ ∃ e, (((ofSettings layout remote settings).after before).perform last).result = .error e ∧ Rejection e) :
    let a := (((ofSettings layout remote settings).after before).perform last).assembler
    let fresh : Assembler := { ofSettings layout remote a.settings with observed := a.observed }
    (a.state = fresh.state ∧ a.pending.length = fresh.pending.length ∧ a.pending.total? = fresh.pending.total?)
      ∧ ∀ (known : Nat → Prop) (later : List Operation),
        (∀ scratch i, a.storage = .ready scratch → known i → scratch.byte i = 0) →
        Operation.Supplied (max a.settings.scratchCapacity 1) known later →
        a.observations later = fresh.observations later := by
  intro a fresh
  have hmade : a.MadeFor layout remote := ((madeFor_ofSettings layout remote settings).after before).after [last]
  have hwaits : a.Waits := by
    rcases hlast with rfl | ⟨e, herror, he⟩
    · obtain ⟨scratch, hstorage⟩ := ready_of_state hpoisoned hdisposed
      exact waits_of_reset hstorage
    · exact waits_of_perform ((orderly_of_idle rfl).after before) he herror
  have halike : Alike _ (fun _ => False) a fresh := hwaits.alike_new hmade fun _ _ _ hi => hi.elim
  refine ⟨⟨halike.state_eq, ?_, ?_⟩, fun known later hzero hlater => ?_⟩
  · rw [halike.pending_eq]
  · rw [halike.pending_eq]
  · exact (hwaits.alike_new hmade hzero).observations_eq later hlater

/-- An envelope in two pieces with a wrong check, and then a whole message elsewhere in the scratch buffer, where bytes
of the envelope lie. -/
theorem observations_of_renewed_after_mismatch :
    let a := (ofSettings .standard "peer" { scratchCapacity := 16 }).after [.observe true, .feed [1, 0, 0]]
    let r := a.perform (.feed [0, 9, 9, 9, 9, 0, 0])
    let fresh : Assembler := { ofSettings .standard "peer" { scratchCapacity := 16 } with observed := true }
    let later : List Operation :=
      [.load 3 [1, 0, 0, 0, 0xa4, 0xa5, 0xa5, 0xa5, 0, 0, 7], .processAt 3 11, .feed [2], .reset, .feed []]
    r.result = .error (.checkMismatch 1 0x09090909 0xa5a5a5a4)
      ∧ r.assembler.observations later = fresh.observations later := by
  intro a r fresh later
  have hresult : r.result = .error (.checkMismatch 1 0x09090909 0xa5a5a5a4) := by decide +kernel
  have hstate : a.state = .awaitingHeader := by decide +kernel
  have hsettings : r.assembler.settings = { scratchCapacity := 16 } := by decide +kernel
  have hobserved : r.assembler.observed = true := by decide +kernel
  have hsupplied : Operation.Supplied 16 (fun _ => False) later := by
    simp only [later, Operation.Supplied, Operation.ReadsWithin, Operation.Writes, List.length_cons, List.length_nil,
      and_true, true_and]
    omega
  obtain ⟨-, hobservations⟩ := observations_of_renewed .standard "peer" { scratchCapacity := 16 }
    [.observe true, .feed [1, 0, 0]] (.feed [0, 9, 9, 9, 9, 0, 0]) (by rw [hstate]; decide) (by rw [hstate]; decide)
    (.inr ⟨_, hresult, .checkMismatch _ _ _⟩)
  rw [hsettings, hobserved] at hobservations
  exact ⟨hresult, hobservations (fun _ => False) later (fun _ _ _ hi => hi.elim) hsupplied⟩

end Assembler

end MessageWire
