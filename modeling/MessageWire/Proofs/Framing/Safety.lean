import MessageWire.Proofs.Framing.Soundness
/-!
# The bounds of an assembler

`Intake.step?` is the step with every slice and every difference checked: it has no answer where one is out of bounds.
On sound states it is the step itself (`Intake.step?_of_sound`), so no step reads outside of its bytes. A step takes in
at least a byte, so taking in a receive ends (`Assembler.safe_after`).
-/

namespace MessageWire

namespace Intake

variable {i : Intake} {pending : Pending} {fresh : Bool} {held window : Bytes}

/-! ### Checked steps -/

/-- The members from `start` up to `stop`, if there are so many. -/
def slice? (xs : Bytes) (start stop : Nat) : Option Bytes :=
  if start ≤ stop ∧ stop ≤ xs.length then some ((xs.take stop).drop start) else none

def minus? (m n : Nat) : Option Nat := if n ≤ m then some (m - n) else none

/-- How many are missing of `wanted`, with no difference taken where none are. -/
def missing? (count wanted : Nat) : Option Nat := if count < wanted then minus? wanted count else some 0

def begin? (i : Intake) (fresh : Bool) (window : Bytes) : Option (Except MessageError Advance) :=
  match i.framing.measure window with
  | .error e => some (.error e)
  | .ok none =>
    if fresh && !i.allowPartial then some (.error (.tooShort window.length i.framing.layout.minimum))
    else some (.ok (keepHeader window.toArray window.length))
  | .ok (some (sizes, total)) =>
    let overhead := sizes.overhead.toNat
    if window.length < overhead then some (.ok (keepHeader window.toArray window.length))
    else do
      let front ← slice? window 0 overhead
      let envelope : Envelope := ⟨sizes, i.framing.layout.routing front, i.remote⟩
      if total ≤ window.length then
        let payload ← slice? window overhead total
        return .ok ⟨total, .idle, completed envelope total payload false⟩
      else
        return .ok ⟨window.length, .body envelope window.toArray total,
          [.progress ⟨some envelope, window.length, total⟩]⟩

def extendBody? (envelope : Envelope) (received : Array UInt8) (total : Nat) (window : Bytes) :
    Option (Except MessageError Advance) := do
  let missing ← minus? total received.size
  let more ← slice? window 0 (min missing window.length)
  let received := received.appendList more
  if received.size < total then
    return .ok ⟨more.length, .body envelope received total, [.progress ⟨some envelope, received.size, total⟩]⟩
  else
    let payload ← slice? received.toList envelope.sizes.overhead.toNat received.size
    return .ok ⟨more.length, .idle, completed envelope total payload true⟩

def extendHeader? (i : Intake) (received : Array UInt8) (window : Bytes) :
    Option (Except MessageError Advance) := do
  let minimum := i.framing.layout.minimum
  let missing ← missing? received.size minimum
  let first ← slice? window 0 (min missing window.length)
  let received := received.appendList first
  match i.framing.measure received.toList with
  | .error e => return .error e
  | .ok none =>
    if received.size < minimum then return .ok (keepHeader received first.length)
    else return .error (.tooShort received.size minimum)
  | .ok (some (sizes, total)) =>
    let overhead := sizes.overhead.toNat
    let missing ← missing? received.size overhead
    let behind ← minus? window.length first.length
    let taken := first.length + min missing behind
    let more ← slice? window first.length taken
    let received := received.appendList more
    if received.size < overhead then return .ok (keepHeader received taken)
    else
      let front ← slice? received.toList 0 overhead
      let later ← slice? window taken window.length
      let finished ← extendBody? ⟨sizes, i.framing.layout.routing front, i.remote⟩ received total later
      return finished.map (Advance.after taken)

/-- `Intake.step` with every slice and difference checked: it has no answer where one is out of bounds. -/
def step? (i : Intake) (pending : Pending) (fresh : Bool) (window : Bytes) : Option (Except MessageError Advance) :=
  match pending with
  | .idle => i.begin? fresh window
  | .header received => i.extendHeader? received window
  | .body envelope received total => extendBody? envelope received total window

/-! ### Sound states stay in bounds -/

theorem slice?_front {xs : Bytes} {stop : Nat} (h : stop ≤ xs.length) : slice? xs 0 stop = some (xs.take stop) := by
  rw [slice?, if_pos ⟨Nat.zero_le _, h⟩, List.drop_zero]

theorem slice?_eq {xs : Bytes} {start stop : Nat} (h : start ≤ stop) (hstop : stop ≤ xs.length) :
    slice? xs start stop = some ((xs.take stop).drop start) := by
  rw [slice?, if_pos ⟨h, hstop⟩]

theorem slice?_back {xs : Bytes} {start : Nat} (h : start ≤ xs.length) :
    slice? xs start xs.length = some (xs.drop start) := by
  rw [slice?_eq h (Nat.le_refl _), List.take_length]

theorem minus?_eq {m n : Nat} (h : n ≤ m) : minus? m n = some (m - n) := by
  rw [minus?, if_pos h]

theorem begin?_eq (i : Intake) (fresh : Bool) (window : Bytes) :
    i.begin? fresh window = some (i.begin fresh window) := by
  rw [begin?, begin]
  rcases hmeasure : i.framing.measure window with e | _ | ⟨sizes, total⟩
  case error => rfl
  case ok.none =>
    simp only
    split <;> rfl
  case ok.some =>
    have hoverhead_le := Framing.overhead_le_of_measure hmeasure
    simp only [Bool.not_eq_true', ← Bool.not_eq_true, reaches_iff, Nat.not_le]
    by_cases hoverhead : window.length < sizes.overhead.toNat
    · rw [if_pos hoverhead, if_pos hoverhead]
    · rw [if_neg hoverhead, if_neg hoverhead, slice?_front (by omega)]
      by_cases htotal : total ≤ window.length
      · simp only [Option.bind_eq_bind, Option.bind_some, if_pos htotal, slice?_eq hoverhead_le htotal]
        rfl
      · simp only [Option.bind_eq_bind, Option.bind_some, if_neg htotal]
        rfl

/-- A slice of as many members as are wanted, or of all behind `start`. -/
theorem slice?_behind (xs : Bytes) {start : Nat} (wanted : Nat) (h : start ≤ xs.length) :
    slice? xs start (start + min wanted (xs.length - start)) = some ((xs.drop start).take wanted) := by
  rw [slice?_eq (by omega) (by omega), List.drop_take, Nat.add_sub_cancel_left, ← List.length_drop,
    ← List.take_eq_take_min]

theorem slice?_min (xs : Bytes) (wanted : Nat) : slice? xs 0 (min wanted xs.length) = some (xs.take wanted) := by
  rw [slice?_front (Nat.min_le_right _ _), ← List.take_eq_take_min]

theorem missing?_eq (count wanted : Nat) : missing? count wanted = some (wanted - count) := by
  unfold missing?
  split
  case isTrue h => rw [minus?_eq (Nat.le_of_lt h)]
  case isFalse h => rw [Nat.sub_eq_zero_of_le (Nat.le_of_not_lt h)]

theorem extendBody?_eq (envelope : Envelope) (held window : Bytes) (total : Nat) (hsize : held.length ≤ total)
    (hoverhead : envelope.sizes.overhead.toNat ≤ held.length) :
    extendBody? envelope held.toArray total window = some (extendBody envelope held.toArray total window) := by
  obtain ⟨more, hmore⟩ : ∃ more, window.take (total - held.length) = more := ⟨_, rfl⟩
  have hpayload : slice? (held ++ more) envelope.sizes.overhead.toNat (held ++ more).length
      = some ((held ++ more).drop envelope.sizes.overhead.toNat) := by
    apply slice?_back
    rw [List.length_append]
    omega
  rw [extendBody?, extendBody, List.size_toArray, minus?_eq hsize, if_neg (Nat.not_lt.mpr hsize)]
  simp only [Option.bind_eq_bind, Option.bind_some, slice?_min, hmore, appendList_toArray, List.size_toArray]
  by_cases htotal : (held ++ more).length < total
  · rw [if_pos htotal, if_pos htotal]
    rfl
  · rw [if_neg htotal, if_neg htotal, hpayload]
    rfl

/-- Filling up the fixed part must not take in more than the message. -/
theorem extendHeader?_eq (hfit : ∀ first sizes total, first.length ≤ i.framing.layout.minimum - held.length →
      i.framing.measure (held ++ first) = .ok (some (sizes, total)) → (held ++ first).length ≤ total) :
    i.extendHeader? held.toArray window = some (i.extendHeader held.toArray window) := by
  obtain ⟨first, hfirst⟩ : ∃ first, window.take (i.framing.layout.minimum - held.length) = first := ⟨_, rfl⟩
  have hlenFirst : first.length = min (i.framing.layout.minimum - held.length) window.length := by
    rw [← hfirst, List.length_take]
  rw [extendHeader?, extendHeader]
  simp only [List.size_toArray, Option.bind_eq_bind, missing?_eq, Option.bind_some, slice?_min, hfirst,
    appendList_toArray]
  match hreceived : i.framing.measure (held ++ first) with
  | .error e => rfl
  | .ok none =>
    simp only
    split <;> rfl
  | .ok (some (sizes, total)) =>
    obtain ⟨more, hmore⟩ : ∃ more,
      (window.drop first.length).take (sizes.overhead.toNat - (held ++ first).length) = more := ⟨_, rfl⟩
    have hle := hfit first sizes total (by omega) hreceived
    have hoverhead_le := Framing.overhead_le_of_measure hreceived
    have hlenMore : more.length
        = min (sizes.overhead.toNat - (held ++ first).length) (window.length - first.length) := by
      rw [← hmore, List.length_take, List.length_drop]
    have hwindow : first.length ≤ window.length := by omega
    have hslice := slice?_behind window (sizes.overhead.toNat - (held ++ first).length) hwindow
    rw [hmore, ← hlenMore] at hslice
    simp only [minus?_eq hwindow, Option.bind_some, ← hlenMore, hslice, hmore]
    obtain ⟨whole, hwhole⟩ : ∃ whole, held ++ first ++ more = whole := ⟨_, rfl⟩
    have hlenWhole : whole.length = (held ++ first).length + more.length := by rw [← hwhole, List.length_append]
    simp only [hwhole]
    by_cases hover : whole.length < sizes.overhead.toNat
    · rw [if_pos hover, if_pos hover]
      rfl
    · have hbody := extendBody?_eq (i.framing.envelope sizes whole i.remote) whole
        (window.drop (first.length + more.length)) total (by omega) (Nat.le_of_not_lt hover)
      rw [if_neg hover, if_neg hover, slice?_front (Nat.le_of_not_lt hover), List.drop_drop]
      simp only [Option.bind_some, slice?_back (show first.length + more.length ≤ window.length by omega)]
      rw [Framing.envelope] at hbody ⊢
      rw [hbody]
      rfl

/-- **No step from a sound state leaves its bounds.** -/
theorem step?_of_sound (hl : i.framing.layout.Lawful) (h : pending.Sound i.framing.layout i.remote)
    (fresh : Bool) (window : Bytes) : i.step? pending fresh window = some (i.step pending fresh window) := by
  cases h with
  | idle => exact begin?_eq i fresh window
  | header nonempty short =>
    refine extendHeader?_eq fun first sizes total hfirst hmeasure => ?_
    exact Nat.le_trans (length_le_overhead hl hfirst short hmeasure) (Framing.overhead_le_of_measure hmeasure)
  | body whole short total_eq check envelope_eq => exact extendBody?_eq _ _ window _ (Nat.le_of_lt short) whole

end Intake

/-- **An assembler never leaves its bounds.** Every step of every receive reads inside of its bytes and takes in at
least one of them. -/
theorem Assembler.safe_after (remote : String) (settings : AssemblerSettings) (ops : List Operation) :
    let a := (ofSettings .standard remote settings).after ops
    a.pending.Sound .standard remote
      ∧ (a.pending.length = 0 ↔ a.pending = .idle)
      ∧ (a.pending.total?.isSome ↔ a.state = .awaitingBody)
      ∧ (∀ total, a.pending.total? = some total → a.pending.length < total)
      ∧ (∀ window next fresh rest, a.intake.Visits a.pending window next fresh rest → rest ≠ [] →
        a.intake.step? next fresh rest = some (a.intake.step next fresh rest)
          ∧ ∀ advance, a.intake.step next fresh rest = .ok advance →
            1 ≤ advance.consumed ∧ advance.consumed ≤ rest.length)
      ∧ ∀ op, (a.perform op).result ≠ .error .stalled ∧ (a.perform op).result ≠ .error .overfull := by
  intro a
  have h : a.Sound .standard remote := (sound_ofSettings .standard remote settings).after Layout.standard_lawful ops
  have hlawful : a.layout.Lawful := by
    rw [h.layout_eq]
    exact Layout.standard_lawful
  refine ⟨h.pending, h.pending.length_eq_zero_iff Layout.standard_lawful, h.total?_isSome_iff,
    fun total htotal => h.length_lt_total htotal, ?_, ?_⟩
  · intro window next fresh rest hvisits hne
    have hpending : a.pending.Sound a.layout a.remote := by
      rw [h.layout_eq, h.remote_eq]
      exact h.pending
    have hnext := Intake.sound_of_visits (i := a.intake) hlawful hpending hvisits
    refine ⟨Intake.step?_of_sound (i := a.intake) hlawful hnext fresh rest, fun advance hstep => ?_⟩
    obtain ⟨hpos, hle, -⟩ := Intake.sound_of_step (i := a.intake) hlawful hnext hne hstep
    exact ⟨hpos, hle⟩
  · intro op
    constructor
    · intro hstalled
      nomatch h.refusal_of_perform Layout.standard_lawful hstalled
    · intro hoverfull
      nomatch h.refusal_of_perform Layout.standard_lawful hoverfull

/-- A ceiling that falls below what has already come of a message does not stop the next step. -/
theorem Assembler.safe_after_lowered_ceiling :
    let ops := [.feed [2, 0, 0, 0, 0xa7, 0xa5, 0xa5, 0xa5, 1, 0, 7, 1], .setMaxMessageSize 3]
    let a := (ofSettings .standard "peer" {}).after ops
    a.state = .awaitingBody ∧ a.pending.total? = some 13 ∧ a.pending.length < 13
      ∧ a.intake.step? a.pending true [4, 6] = some (a.intake.step a.pending true [4, 6])
      ∧ ∃ advance, a.intake.step a.pending true [4, 6] = .ok advance ∧ 1 ≤ advance.consumed
        ∧ advance.consumed ≤ 2 := by
  intro ops a
  obtain ⟨-, -, hbody, hlength, hsteps, -⟩ := safe_after "peer" {} ops
  have htotal : a.pending.total? = some 13 := by cbv
  obtain ⟨hchecked, hconsumed⟩ := hsteps [4, 6] a.pending true [4, 6] .first (List.cons_ne_nil _ _)
  refine ⟨hbody.mp (by rw [htotal]; rfl), htotal, hlength 13 htotal, hchecked, ?_⟩
  cases hstep : a.intake.step a.pending true [4, 6] with
  | ok advance => exact ⟨advance, rfl, hconsumed advance hstep⟩
  | error e =>
    have hok : (a.intake.step a.pending true [4, 6]).isOk = true := by cbv
    rw [hstep] at hok
    cases hok

end MessageWire
