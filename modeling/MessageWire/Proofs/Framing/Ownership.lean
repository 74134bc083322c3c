import MessageWire.Proofs.Framing.Log
import MessageWire.Proofs.Framing.Standard
/-!
# Which payloads are owned

A message that one receive brought whole is given out from the scratch buffer; a message of which part came earlier is
put together in memory of its own. So whether a payload is owned is told by where the message lies in the stream, and
by nothing else (`Assembler.owned_iff_straddles`): neither by the messages in front of it in the same receive, nor by
whether the cut is in the envelope or in the payload.

What a receive gives out is told by the bytes that were kept, followed by those of the receive: they are cut into whole
messages from the front (`Carved`). Positions in the stream are counted from there.
-/

namespace MessageWire

/-! ### Places in the stream -/

/-- A message given out, and the position in the stream at which its first byte lies. -/
structure Placed where
  start : Nat
  delivery : Delivery

/-- The positions between which the bytes of each receive lie, if `came` bytes came before the first. -/
def ranges (came : Nat) : List (Nat × Bytes) → List (Nat × Nat)
  | [] => []
  | (_, data) :: rest => (came, came + data.length) :: ranges (came + data.length) rest

namespace Placed

/-- The position behind the last byte of the message. -/
def stop (p : Placed) : Nat := p.start + p.delivery.message.wireSize

/-- Messages that lie in the stream one right behind the other. -/
def row (start : Nat) : List Delivery → List Placed
  | [] => []
  | d :: ds => ⟨start, d⟩ :: row (start + d.message.wireSize) ds

theorem map_delivery_row (start : Nat) (ds : List Delivery) : (row start ds).map (·.delivery) = ds := by
  induction ds generalizing start with
  | nil => rfl
  | cons d ds ih => rw [row, List.map_cons, ih]

/-- All bytes of the message, those of its envelope too, lie in one of the receives. -/
def Within (p : Placed) (receives : List (Nat × Nat)) : Prop := ∃ r ∈ receives, r.1 ≤ p.start ∧ p.stop ≤ r.2

/-- One of the receives begins behind the first byte of the message and before its end. -/
def Straddles (p : Placed) (receives : List (Nat × Nat)) : Prop := ∃ r ∈ receives, p.start < r.1 ∧ r.1 < p.stop

/-- The message is where it is said to be. It ends in the receive that brought `data` behind the bytes in `before`, and
it is owned if it began earlier. -/
structure EndsIn (before data : Bytes) (p : Placed) : Prop where
  begun : before.length < p.stop
  ended : p.stop ≤ before.length + data.length
  wire : ∃ wire rest, Layout.standard.encodeMessage p.delivery.message.routing p.delivery.message.payload = .ok wire
    ∧ wire.length = p.delivery.message.wireSize ∧ (before ++ data).drop p.start = wire ++ rest
  payload : p.delivery.message.payload.length = p.delivery.message.envelope.sizes.payload.toNat
  owned_iff : p.delivery.owned = true ↔ p.start < before.length

end Placed

theorem ranges_append (came : Nat) (receives later : List (Nat × Bytes)) :
    ranges came (receives ++ later) = ranges came receives
      ++ ranges (came + (receives.flatMap (·.2)).length) later := by
  induction receives generalizing came with
  | nil => rfl
  | cons receive rest ih =>
    rw [List.cons_append, ranges, ih, ranges, List.flatMap_cons, List.length_append, Nat.add_assoc, List.cons_append]

theorem bounds_of_mem_ranges {came : Nat} {receives : List (Nat × Bytes)} {r : Nat × Nat}
    (h : r ∈ ranges came receives) :
    came ≤ r.1 ∧ r.1 ≤ r.2 ∧ r.2 ≤ came + (receives.flatMap (·.2)).length := by
  induction receives generalizing came with
  | nil => cases h
  | cons receive rest ih =>
    rw [List.flatMap_cons, List.length_append]
    rcases List.mem_cons.mp h with rfl | hrest
    · exact ⟨Nat.le_refl _, Nat.le_add_right _ _, by omega⟩
    · have hbounds := ih hrest
      omega

/-- A receive in front of some other ends where that one begins or before, and one behind it begins where it ends or
later. -/
theorem cases_of_mem_ranges {came : Nat} {earlier later : List (Nat × Bytes)} {receive : Nat × Bytes} {r : Nat × Nat}
    (h : r ∈ ranges came (earlier ++ receive :: later)) :
    let start := came + (earlier.flatMap (·.2)).length
    (r.1 ≤ start ∧ r.2 ≤ start) ∨ r = (start, start + receive.2.length)
      ∨ start + receive.2.length ≤ r.1 := by
  rw [ranges_append] at h
  rcases List.mem_append.mp h with hearlier | hrest
  · have hbounds := bounds_of_mem_ranges hearlier
    exact .inl ⟨Nat.le_trans hbounds.2.1 hbounds.2.2, hbounds.2.2⟩
  · rcases List.mem_cons.mp hrest with heq | hlater
    · exact .inr (.inl heq)
    · exact .inr (.inr (bounds_of_mem_ranges hlater).1)

theorem mem_ranges (came : Nat) (earlier later : List (Nat × Bytes)) (receive : Nat × Bytes) :
    (came + (earlier.flatMap (·.2)).length, came + (earlier.flatMap (·.2)).length + receive.2.length)
      ∈ ranges came (earlier ++ receive :: later) := by
  rw [ranges_append]
  exact List.mem_append_right _ List.mem_cons_self

namespace Placed.EndsIn

variable {before data : Bytes} {earlier later : List (Nat × Bytes)} {receive : Nat × Bytes} {p : Placed}

theorem encodeMessage_eq (h : p.EndsIn before data) (more : Bytes) :
    Layout.standard.encodeMessage p.delivery.message.routing p.delivery.message.payload
      = .ok (((before ++ data ++ more).drop p.start).take p.delivery.message.wireSize) := by
  obtain ⟨wire, rest, hencode, hsize, hwire⟩ := h.wire
  have hbegun : p.start ≤ (before ++ data).length := by
    have hended := h.ended
    unfold Placed.stop at hended
    rw [List.length_append]
    omega
  rw [hencode, List.drop_append_of_le_length hbegun, hwire, List.append_assoc, ← hsize, List.take_left]

/-- The receive that a message ends in decides: no other reaches into the message without it. -/
theorem straddles_iff (h : p.EndsIn (before ++ earlier.flatMap (·.2)) receive.2) :
    p.Straddles (ranges before.length (earlier ++ receive :: later)) ↔ p.delivery.owned = true := by
  obtain ⟨hbegun, hended, -, -, howned⟩ := h
  rw [List.length_append] at hbegun hended howned
  rw [howned]
  constructor
  · rintro ⟨r, hr, hstart, hstop⟩
    rcases cases_of_mem_ranges hr with ⟨hbegin, -⟩ | rfl | hbehind
    · exact Nat.lt_of_lt_of_le hstart hbegin
    · exact hstart
    · omega
  · exact fun hstart => ⟨_, mem_ranges _ _ _ _, hstart, hbegun⟩

theorem within_iff (h : p.EndsIn (before ++ earlier.flatMap (·.2)) receive.2) :
    p.Within (ranges before.length (earlier ++ receive :: later)) ↔ p.delivery.owned = false := by
  obtain ⟨hbegun, hended, -, -, howned⟩ := h
  rw [List.length_append] at hbegun hended howned
  rw [← Bool.not_eq_true, howned, Nat.not_lt]
  constructor
  · rintro ⟨r, hr, hstart, hstop⟩
    rcases cases_of_mem_ranges hr with ⟨-, hend⟩ | rfl | hbehind
    · omega
    · exact hstart
    · omega
  · exact fun hstart => ⟨_, mem_ranges _ _ _ _, hstart, hended⟩

end Placed.EndsIn

/-! ### Whole messages in a receive -/

/-- Bytes, `held` earlier ones and a `window`, are cut into whole messages from the front, and `rest` was not given out.
-/
inductive Carved (remote : String) : (held window : Bytes) → List Delivery → (rest : Bytes) → Prop
  | none (held window : Bytes) : Carved remote held window [] (held ++ window)
  | next {held window later rest : Bytes} {routing payload : Bytes} {ds : List Delivery}
      (fits : routing.length ≤ Layout.maxRouting ∧ payload.length ≤ maxPayload)
      (front : held ++ window = Layout.standardWire routing payload ++ later)
      (more : held.length < (Layout.standardWire routing payload).length)
      (behind : Carved remote [] later ds rest) :
      Carved remote held window (⟨.standard remote routing payload, !held.isEmpty⟩ :: ds) rest

namespace Carved

variable {remote : String} {held window rest gone : Bytes} {ds : List Delivery} {p : Placed}

theorem suffix (h : Carved remote held window ds rest) : rest <:+ held ++ window := by
  induction h with
  | none held window => exact List.suffix_refl _
  | next fits front more behind ih =>
    rw [front]
    exact ih.trans (List.suffix_append _ _)

theorem wireSize_standard (remote : String) {routing payload : Bytes}
    (fits : routing.length ≤ Layout.maxRouting ∧ payload.length ≤ maxPayload) :
    (Message.standard remote routing payload).wireSize = (Layout.standardWire routing payload).length := by
  rw [Layout.length_standardWire]
  exact (Message.sizes_standard remote fits.1 fits.2).2.2

/-- The messages lie where they are placed, if the bytes lie behind those in `gone`. -/
theorem endsIn (h : Carved remote held window ds rest) (hp : p ∈ Placed.row gone.length ds) :
    p.EndsIn (gone ++ held) window ∧ gone.length ≤ p.start
      ∧ p.stop + rest.length ≤ (gone ++ held ++ window).length := by
  induction h generalizing gone with
  | none held window => cases hp
  | @next held window later rest routing payload ds fits front more behind ih =>
    have hsize := wireSize_standard remote fits
    have hencode := Layout.encodeMessage_standard fits.1 fits.2
    have hpayload := (Message.sizes_standard remote fits.1 fits.2).1
    generalize Layout.standardWire routing payload = wire at front more hsize hencode
    have hall : gone ++ held ++ window = gone ++ wire ++ later := by
      rw [List.append_assoc, front, List.append_assoc]
    have hlen := congrArg List.length hall
    simp only [List.length_append] at hlen
    rcases List.mem_cons.mp hp with rfl | htail
    · have hstop : Placed.stop ⟨gone.length, ⟨.standard remote routing payload, !held.isEmpty⟩⟩
          = gone.length + wire.length := congrArg (gone.length + ·) hsize
      have hrest := behind.suffix.length_le
      rw [List.nil_append] at hrest
      refine ⟨⟨?_, ?_, ⟨wire, later, hencode, hsize.symm, ?_⟩, hpayload.symm, ?_⟩, Nat.le_refl _, ?_⟩
      · rw [hstop, List.length_append]
        omega
      · rw [hstop, List.length_append]
        omega
      · rw [hall, List.append_assoc, List.drop_left' rfl]
      · rw [List.length_append, Nat.lt_add_right_iff_pos, List.length_pos_iff]
        simp
      · rw [hstop]
        simp only [List.length_append]
        omega
    · rw [hsize, ← List.length_append] at htail
      obtain ⟨⟨hbegun, hended, hwire, hpayload', howned⟩, hstart, hstop⟩ := ih htail
      rw [List.append_nil] at hbegun hended hwire howned hstop
      rw [List.length_append] at hbegun hended howned hstart
      simp only [List.length_append] at hstop
      refine ⟨⟨?_, ?_, hall ▸ hwire, hpayload', ?_⟩, by omega, ?_⟩
      · rw [List.length_append]
        omega
      · rw [List.length_append]
        omega
      · -- A later message begins behind the first, and that one ended in this receive.
        rw [howned, List.length_append]
        omega
      · simp only [List.length_append]
        omega

theorem pairwise_row (h : Carved remote held window ds rest) :
    (Placed.row gone.length ds).Pairwise fun p q => p.stop ≤ q.start := by
  induction h generalizing gone with
  | none held window => exact .nil
  | @next held window later rest routing payload ds fits front more behind ih =>
    have hsize := wireSize_standard remote fits
    rw [Placed.row, hsize, ← List.length_append]
    refine .cons (fun q hq => ?_) ih
    have hstart := (behind.endsIn hq).2.1
    rw [List.length_append] at hstart
    exact Nat.le_trans (Nat.le_of_eq (congrArg (gone.length + ·) hsize)) hstart

end Carved

/-! ### What a run gives out -/

namespace Intake

variable {i : Intake} {pending : Pending} {fresh : Bool} {held window : Bytes} {advance : Advance}

def given (events : List Event) : List Delivery := events.filterMap (·.delivery?)

theorem given_append (events later : List Event) : given (events ++ later) = given events ++ given later :=
  List.filterMap_append ..

theorem bytes_hold (held : Bytes) : (i.hold held).bytes = held := by
  unfold hold
  split
  · rfl
  · split
    case isTrue hnil => exact hnil.symm
    case isFalse => rfl

/-- A step that gives out the message at the front, or keeps all there is. -/
inductive Carves (remote : String) (held window : Bytes) (advance : Advance) : Prop
  | whole {routing payload rest : Bytes} (idle : advance.pending = .idle)
      (events : given advance.events = [⟨.standard remote routing payload, !held.isEmpty⟩])
      (fits : routing.length ≤ Layout.maxRouting ∧ payload.length ≤ maxPayload)
      (front : held ++ window = Layout.standardWire routing payload ++ rest)
      (more : held.length < (Layout.standardWire routing payload).length)
      (behind : window.drop advance.consumed = rest)
  | kept (bytes : advance.pending.bytes = held ++ window) (events : given advance.events = [])
      (all : window.drop advance.consumed = [])

theorem carves_of_assemble (hlayout : i.framing.layout = .standard)
    (hheld : i.framing.decode i.remote held = .ok none) (h : i.assemble held window = .ok advance) :
    Carves i.remote held window advance := by
  unfold assemble at h
  match hdecode : i.framing.decode i.remote (held ++ window) with
  | .error e => simp [hdecode] at h
  | .ok none =>
    simp only [hdecode] at h
    cases h
    exact .kept (bytes_hold _) rfl List.drop_length
  | .ok (some (m, rest)) =>
    simp only [hdecode] at h
    cases h
    have hl : i.framing.layout.Lawful := hlayout ▸ Layout.standard_lawful
    have hmore := Framing.length_lt_of_decode_append hl hheld hdecode
    obtain ⟨taken, -, rfl⟩ := Framing.split_of_decode_append hl hheld hdecode
    obtain ⟨⟨layout, ceiling⟩, remote, allowPartial⟩ := i
    obtain rfl : layout = .standard := hlayout
    obtain ⟨hm, hrouting, htotal, hfront⟩ := Framing.eq_standardWire_of_decode hdecode
    have hfits : m.routing.length ≤ Layout.maxRouting ∧ m.payload.length ≤ maxPayload := ⟨hrouting, by omega⟩
    have hsize := Carved.wireSize_standard remote hfits
    refine .whole rfl ?_ hfits hfront ?_ ?_
    · rw [← hm]
      rfl
    · rw [← hsize, ← hm]
      exact hmore
    · simp only [List.length_append, Nat.add_sub_cancel, List.drop_left]

theorem carves_of_step (hlayout : i.framing.layout = .standard) (h : pending.Sound i.framing.layout i.remote)
    (hne : window ≠ []) (hstep : i.step pending fresh window = .ok advance) :
    Carves i.remote pending.bytes window advance := by
  obtain ⟨e, -, herror⟩ | ⟨ceiling, hheld, hassemble⟩ :=
    step_cases (hlayout ▸ Layout.standard_lawful) h hne fresh
  · rw [hstep] at herror
    cases herror
  · exact carves_of_assemble (i := i.allowing ceiling) hlayout hheld (hassemble.symm.trans hstep)

/-- A run gives out the messages that the bytes kept and those of the receive are cut into, and keeps what is left. -/
theorem carved_of_runFrom (hlayout : i.framing.layout = .standard) (h : pending.Sound i.framing.layout i.remote)
    (fresh : Bool) (window : Bytes) :
    let run := i.runFrom pending fresh window
    ∃ rest, Carved i.remote pending.bytes window (given run.events) rest ∧ run.pending.bytes <:+ rest := by
  fun_induction runFrom i pending fresh window with
  | case1 pending fresh =>
    refine ⟨_, .none _ _, ?_⟩
    simp only [List.append_nil, List.suffix_refl]
  | case2 pending fresh b bs e hstep => exact ⟨_, .none _ _, List.nil_suffix⟩
  | case3 pending fresh b bs kept events hstep =>
    have hl : i.framing.layout.Lawful := hlayout ▸ Layout.standard_lawful
    have hpos := (sound_of_step hl h (List.cons_ne_nil _ _) hstep).1
    exact absurd hpos (Nat.lt_irrefl 0)
  | case4 pending fresh b bs n next events hstep later ih =>
    have hl : i.framing.layout.Lawful := hlayout ▸ Layout.standard_lawful
    -- What is behind the message is a receive of its own, of which nothing came earlier.
    obtain ⟨rest, hcarved, hkept⟩ := ih (sound_of_step hl h (List.cons_ne_nil _ _) hstep).2.2
    intro run
    rw [show given run.events = given events ++ given later.events from given_append events later.events]
    cases carves_of_step hlayout h (List.cons_ne_nil _ _) hstep with
    | whole idle events fits front more behind =>
      change next = .idle at idle
      change bs.drop n = _ at behind
      subst idle behind
      exact ⟨rest, events ▸ .next fits front more hcarved, hkept⟩
    | kept bytes events all =>
      change next.bytes = _ at bytes
      change bs.drop n = [] at all
      have hlater : later = ⟨.ok (), next, []⟩ := by
        show i.runFrom next false (bs.drop n) = _
        rw [all, runFrom_nil]
      rw [hlater, events]
      refine ⟨_, .none _ _, ?_⟩
      show later.pending.bytes <:+ _
      simp only [hlater, ← bytes, List.suffix_refl]

theorem carved_of_run (hlayout : i.framing.layout = .standard) (h : pending.Sound i.framing.layout i.remote)
    (window : Bytes) :
    let run := i.run pending window
    ∃ rest, Carved i.remote pending.bytes window (given run.events) rest ∧ run.pending.bytes <:+ rest := by
  unfold run
  split
  case h_1 => exact ⟨_, .none _ _, List.nil_suffix⟩
  case h_2 => exact carved_of_runFrom hlayout h true window

end Intake

/-! ### What an assembler gives out -/

def Operation.receiving (receive : Nat × Bytes) : List Operation :=
  [.load receive.1 receive.2, .processAt receive.1 receive.2.length]

namespace Assembler

variable {a : Assembler} {remote : String}

/-- The messages that an assembler gives out in some receives, and where they lie, if `came` bytes came before and the
last of these are pending. -/
def placedAt (a : Assembler) (came : Nat) : List (Nat × Bytes) → List Placed
  | [] => []
  | (offset, data) :: rest =>
    let r := a.receiveAt offset data
    Placed.row (came - a.pending.length) r.deliveries ++ r.assembler.placedAt (came + data.length) rest

theorem length_bytes (pending : Pending) : pending.bytes.length = pending.length := by
  cases pending <;> rfl

/-- Bytes that find no scratch buffer are refused when they should be put there, and again when they should be read. -/
theorem receiveAt_eq_perform (a : Assembler) (receive : Nat × Bytes) (later : List Operation) :
    let r := a.receiveAt receive.1 receive.2
    r.assembler = a.after (Operation.receiving receive)
      ∧ a.log (Operation.receiving receive ++ later) = r.events ++ r.assembler.log later := by
  obtain ⟨offset, data⟩ := receive
  unfold receiveAt
  simp only [Operation.receiving, after, List.cons_append, List.nil_append, log_cons, perform]
  cases hload : a.load offset data with
  | error e =>
    have hrefused : a.processAt offset data.length = ⟨.error e, [], a⟩ := by
      rw [processAt, scratch_of_load_error hload]
    simp only [hrefused, true_and]
    rfl
  | ok a' => exact ⟨rfl, rfl⟩

theorem after_receiving (a : Assembler) (receive : Nat × Bytes) (later : List Operation) :
    a.after (Operation.receiving receive ++ later) = (a.receiveAt receive.1 receive.2).assembler.after later := by
  rw [after_append, (a.receiveAt_eq_perform receive later).1]

theorem Sound.receiveAt (h : a.Sound .standard remote) (offset : Nat) (data : Bytes) :
    (a.receiveAt offset data).assembler.Sound .standard remote := by
  rw [(a.receiveAt_eq_perform (offset, data) []).1]
  exact h.after Layout.standard_lawful _

theorem MadeFor.receiveAt {layout : Layout} (h : a.MadeFor layout remote) (offset : Nat) (data : Bytes) :
    (a.receiveAt offset data).assembler.MadeFor layout remote := by
  rw [(a.receiveAt_eq_perform (offset, data) []).1]
  exact h.after _

theorem settings_receiveAt (a : Assembler) (offset : Nat) (data : Bytes) :
    (a.receiveAt offset data).assembler.settings = a.settings := by
  unfold receiveAt
  cases hload : a.load offset data with
  | error e => rfl
  | ok a' =>
    obtain ⟨scratch, -, rfl⟩ := load_eq_ok hload
    rcases processAt_cases { a with storage := .ready (scratch.put offset data) } offset data.length with
      ⟨e, heq, -⟩ | ⟨scratch', -, -, heq⟩
    · simp only [heq]
    · obtain ⟨pending, storage, hafter⟩ := afterRun_eq { a with storage := .ready (scratch.put offset data) }
        (a.intake.run a.pending (scratch'.window offset data.length))
      exact (congrArg (·.assembler.settings) heq).trans (congrArg (·.settings) hafter)

theorem map_delivery_placedAt (a : Assembler) (came : Nat) (receives : List (Nat × Bytes)) :
    (a.placedAt came receives).map (·.delivery)
      = (a.log (receives.flatMap Operation.receiving)).filterMap (·.delivery?) := by
  induction receives generalizing a came with
  | nil => rfl
  | cons receive rest ih =>
    obtain ⟨-, hlog⟩ := a.receiveAt_eq_perform receive (rest.flatMap Operation.receiving)
    rw [placedAt, List.map_append, Placed.map_delivery_row, ih, List.flatMap_cons, hlog, List.filterMap_append]
    rfl

/-- A receive is refused for want of a scratch buffer, or it is a run that gives out the same and keeps the same unless
it fails. -/
theorem Sound.receiveAt_cases (h : a.Sound .standard remote) (offset : Nat) (data : Bytes)
    (hfits : ∀ scratch, a.storage = .ready scratch → offset + data.length ≤ scratch.capacity) :
    let r := a.receiveAt offset data
    let run := a.intake.run a.pending data
    (∃ e, a.scratch = .error e ∧ a.pending = .idle ∧ r = ⟨.error e, [], a⟩)
      ∨ r.result = run.result ∧ r.deliveries = Intake.given run.events
        ∧ (run.result = .ok () → r.assembler.pending = run.pending)
        ∧ ∀ e, run.result = .error e → r.assembler.pending = .idle := by
  cases hscratch : a.scratch with
  | error e =>
    have hidle : a.pending = .idle := by
      by_contra hne
      obtain ⟨scratch, hstorage⟩ := h.ready hne
      rw [Assembler.scratch, hstorage] at hscratch
      cases hscratch
    refine .inl ⟨e, rfl, hidle, ?_⟩
    rw [Assembler.receiveAt, Assembler.load, hscratch]
    rfl
  | ok scratch =>
    have hstorage := storage_of_scratch hscratch
    rw [receiveAt_eq_run hstorage (hfits scratch hstorage)]
    refine .inr ⟨rfl, ?_, fun hok => ?_, fun e herror => pending_afterRun_of_error herror⟩
    · rw [Reaction.deliveries, deliveries_heard]
      split
      · rfl
      · exact (Intake.given_append _ [.progress .cleared]).trans (List.append_nil _)
    · simp only [afterRun_of_ok hok]

/-- A receive gives out the messages that the bytes kept and its own are cut into, and keeps what is left. -/
theorem Sound.carved_of_receiveAt (h : a.Sound .standard remote) (offset : Nat) (data : Bytes)
    (hfits : ∀ scratch, a.storage = .ready scratch → offset + data.length ≤ scratch.capacity) :
    let r := a.receiveAt offset data
    ∃ rest, Carved remote a.pending.bytes data r.deliveries rest ∧ r.assembler.pending.bytes <:+ rest := by
  rcases h.receiveAt_cases offset data hfits with ⟨e, -, hidle, hrefused⟩ | ⟨-, hgiven, hok, herror⟩
  · rw [hrefused]
    refine ⟨_, .none _ _, ?_⟩
    rw [hidle]
    exact List.nil_suffix
  · obtain ⟨hlayout, rfl, hpending, -⟩ := h
    obtain ⟨rest, hcarved, hkept⟩ := Intake.carved_of_run (i := a.intake) hlayout (hlayout ▸ hpending) data
    refine ⟨rest, hgiven ▸ hcarved, ?_⟩
    cases hresult : (a.intake.run a.pending data).result with
    | ok =>
      rw [hok hresult]
      exact hkept
    | error e =>
      rw [herror e hresult]
      exact List.nil_suffix

/-- Each message that a receive gives out lies where it is said to, and what is kept lies behind them all. -/
theorem Sound.endsIn_of_receiveAt (h : a.Sound .standard remote) (offset : Nat) (data : Bytes)
    (hfits : ∀ scratch, a.storage = .ready scratch → offset + data.length ≤ scratch.capacity) (gone : Bytes) :
    let r := a.receiveAt offset data
    let placed := Placed.row gone.length r.deliveries
    placed.Pairwise (fun p q => p.stop ≤ q.start)
      ∧ (∀ p ∈ placed, p.EndsIn (gone ++ a.pending.bytes) data ∧ gone.length ≤ p.start)
      ∧ ∃ gone' : Bytes, gone' ++ r.assembler.pending.bytes = gone ++ a.pending.bytes ++ data
        ∧ gone.length ≤ gone'.length ∧ ∀ p ∈ placed, p.stop ≤ gone'.length := by
  obtain ⟨left, hcarved, before, hkept⟩ := h.carved_of_receiveAt offset data hfits
  obtain ⟨dropped, hdropped⟩ := hcarved.suffix
  refine ⟨hcarved.pairwise_row, fun p hp => ⟨(hcarved.endsIn hp).1, (hcarved.endsIn hp).2.1⟩,
    gone ++ dropped ++ before, ?_, ?_, fun p hp => ?_⟩
  · rw [List.append_assoc, hkept, List.append_assoc, hdropped, List.append_assoc]
  · simp only [List.length_append]
    omega
  · -- What came before the bytes that are kept is gone.
    have hstop := (hcarved.endsIn hp).2.2
    have hlen := congrArg List.length hdropped
    simp only [List.length_append] at hstop hlen ⊢
    omega

/-- Each message lies where it is said to, in the receive that brought its end, and the messages lie in order. -/
theorem Sound.endsIn_placedAt (h : a.Sound .standard remote) (hmade : a.MadeFor .standard remote)
    (receives : List (Nat × Bytes)) (hfits : ∀ r ∈ receives, r.1 + r.2.length ≤ max a.settings.scratchCapacity 1)
    (gone : Bytes) :
    let placed := a.placedAt (gone ++ a.pending.bytes).length receives
    placed.Pairwise (fun p q => p.stop ≤ q.start) ∧ ∀ p ∈ placed, gone.length ≤ p.start
      ∧ ∃ earlier receive later, receives = earlier ++ receive :: later
        ∧ p.EndsIn (gone ++ a.pending.bytes ++ earlier.flatMap (·.2)) receive.2 := by
  induction receives generalizing a gone with
  | nil => exact ⟨.nil, fun p hp => nomatch hp⟩
  | cons receive rest ih =>
    obtain ⟨offset, data⟩ := receive
    have hroom := hfits (offset, data) List.mem_cons_self
    obtain ⟨hrow, hends, gone', hall, hgone, hbefore⟩ := h.endsIn_of_receiveAt offset data
      (fun scratch hstorage => hmade.capacity_eq scratch hstorage ▸ hroom) gone
    have hstart : (gone ++ a.pending.bytes).length - a.pending.length = gone.length := by
      rw [List.length_append, length_bytes, Nat.add_sub_cancel]
    have hcame : (gone ++ a.pending.bytes).length + data.length
        = (gone' ++ (a.receiveAt offset data).assembler.pending.bytes).length := by
      exact List.length_append.symm.trans (congrArg List.length hall.symm)
    have hrest : ∀ r ∈ rest, r.1 + r.2.length
      ≤ max (a.receiveAt offset data).assembler.settings.scratchCapacity 1 := by
      rw [settings_receiveAt]
      exact fun r hr => hfits r (List.mem_cons_of_mem _ hr)
    obtain ⟨hordered, hplaced⟩ := ih (h.receiveAt offset data) (hmade.receiveAt offset data) hrest gone'
    rw [placedAt, hstart, hcame]
    refine ⟨List.pairwise_append.mpr ⟨hrow, hordered, fun p hp q hq => ?_⟩, fun p hp => ?_⟩
    · exact Nat.le_trans (hbefore p hp) (hplaced q hq).1
    · rcases List.mem_append.mp hp with hnow | hlater
      · refine ⟨(hends p hnow).2, [], (offset, data), rest, rfl, ?_⟩
        rw [List.flatMap_nil, List.append_nil]
        exact (hends p hnow).1
      · obtain ⟨hbegin, earlier, receive, later, hsplit, hends⟩ := hplaced p hlater
        refine ⟨Nat.le_trans hgone hbegin, (offset, data) :: earlier, receive, later, congrArg _ hsplit, ?_⟩
        rw [hall] at hends
        rw [List.flatMap_cons, ← List.append_assoc]
        exact hends

/-- **A payload is owned exactly if its message straddles a boundary between receives.** The messages lie one behind the
other in the stream. -/
theorem owned_iff_straddles (remote : String) (settings : AssemblerSettings) (ops : List Operation)
    (receives : List (Nat × Bytes)) (hfits : ∀ r ∈ receives, r.1 + r.2.length ≤ max settings.scratchCapacity 1) :
    let a := (ofSettings .standard remote settings).after ops
    let stream := a.pending.bytes ++ receives.flatMap (·.2)
    let placed := a.placedAt a.pending.length receives
    placed.map (·.delivery) = (a.log (receives.flatMap Operation.receiving)).filterMap (·.delivery?)
      ∧ placed.Pairwise (fun p q => p.stop ≤ q.start)
      ∧ ∀ p ∈ placed, let m := p.delivery.message
        Layout.standard.encodeMessage m.routing m.payload = .ok ((stream.drop p.start).take m.wireSize)
          ∧ (p.delivery.owned = false ↔ p.Within (ranges a.pending.length receives))
          ∧ (p.delivery.owned = true ↔ p.Straddles (ranges a.pending.length receives))
          ∧ m.payload.length = m.envelope.sizes.payload.toNat := by
  intro a stream placed
  have hsound : a.Sound .standard remote := (sound_ofSettings _ _ _).after Layout.standard_lawful ops
  have hmade : a.MadeFor .standard remote := (madeFor_ofSettings _ _ _).after ops
  have hcapacity : a.settings.scratchCapacity = settings.scratchCapacity := scratchCapacity_after _ ops
  obtain ⟨hordered, hplaced⟩ := hsound.endsIn_placedAt hmade receives (hcapacity ▸ hfits) []
  rw [List.nil_append, length_bytes] at hordered hplaced
  refine ⟨a.map_delivery_placedAt _ receives, hordered, fun p hp => ?_⟩
  obtain ⟨-, earlier, receive, later, hsplit, hends⟩ := hplaced p hp
  have hstream : stream = a.pending.bytes ++ earlier.flatMap (·.2) ++ receive.2 ++ later.flatMap (·.2) := by
    show a.pending.bytes ++ receives.flatMap (·.2) = _
    rw [hsplit, List.flatMap_append, List.flatMap_cons]
    simp only [List.append_assoc]
  refine ⟨?_, ?_, ?_, hends.payload⟩
  · rw [hstream]
    exact hends.encodeMessage_eq _
  · rw [hsplit, ← length_bytes, hends.within_iff]
  · rw [hsplit, ← length_bytes, hends.straddles_iff]

/-- A message that is cut inside its envelope, one without payload that is cut as well, bytes that are refused, and a
whole message in one receive. -/
theorem owned_iff_straddles_of_cut_envelopes :
    let a := (ofSettings .standard "peer" { scratchCapacity := 16 }).after [.observe true]
    let receives : List (Nat × Bytes) :=
      [(0, [1, 0, 0, 0, 0xa4]), (3, [0xa5, 0xa5, 0xa5, 1, 0, 7, 9, 0, 0]), (7, [0, 0, 0xa5, 0xa5, 0xa5, 0xa5, 0, 0]),
        (0, [9, 9, 9, 9, 9, 9, 9, 9, 9, 9]), (2, [0, 0, 0, 0, 0xa5, 0xa5, 0xa5, 0xa5, 0, 0])]
    let placed := a.placedAt 0 receives
    (∀ r ∈ receives, r.1 + r.2.length ≤ max 16 1)
      ∧ placed.map (fun p => (p.start, p.stop, p.delivery.owned)) = [(0, 12, true), (12, 22, true), (32, 42, false)]
      ∧ ranges 0 receives = [(0, 5), (5, 14), (14, 22), (22, 32), (32, 42)]
      ∧ ∀ p ∈ placed, p.delivery.owned = true ↔ p.Straddles (ranges 0 receives) := by
  intro a receives placed
  have hfits : ∀ r ∈ receives, r.1 + r.2.length ≤ max 16 1 := by decide
  have hplaced : placed.map (fun p => (p.start, p.stop, p.delivery.owned))
      = [(0, 12, true), (12, 22, true), (32, 42, false)] := by decide +kernel
  obtain ⟨-, -, hall⟩ := owned_iff_straddles "peer" { scratchCapacity := 16 } [.observe true] receives hfits
  exact ⟨hfits, hplaced, rfl, fun p hp => (hall p hp).2.2.1⟩

end Assembler

end MessageWire
