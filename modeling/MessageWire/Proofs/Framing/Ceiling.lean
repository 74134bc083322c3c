import MessageWire.Proofs.Framing.Insertion
import MessageWire.Proofs.Framing.Ownership
/-!
# Moving the ceiling

The ceiling may be moved between any two receives. It decides about a message in the receive that brings the end of the
envelope, and is not asked again: what is measured is an envelope that is not whole (`Intake.runFrom_of_open`), or
nothing (`Intake.runFrom_of_body`). So a message that is given out, or of which the envelope is kept, was allowed when
its envelope became whole, and one that waits for its payload is given out whatever becomes of the ceiling
(`Assembler.ceiling_decides_at_envelope`).
-/

namespace MessageWire

/-! ### Envelopes that are admitted -/

/-- The positions of the bytes of a receive in the stream, and the ceiling that was in force. -/
structure Arrival where
  start : Nat
  stop : Nat
  ceiling : Nat
  deriving DecidableEq

/-- The envelope of a message that starts at a position of the stream became whole in the receive, and the ceiling
allowed the message. -/
structure Arrival.Admits (s : Arrival) (position : Nat) (e : Envelope) : Prop where
  opened : s.start < position + e.sizes.overhead.toNat
  whole : position + e.sizes.overhead.toNat ≤ s.stop
  allowed : e.total ≤ s.ceiling

theorem Arrival.Admits.mono {s t : Arrival} {position : Nat} {e : Envelope} (h : s.Admits position e)
    (hstart : t.start ≤ s.start) (hstop : s.stop ≤ t.stop) (hceiling : s.ceiling = t.ceiling) :
    t.Admits position e :=
  ⟨Nat.lt_of_le_of_lt hstart h.opened, Nat.le_trans h.whole hstop, hceiling ▸ h.allowed⟩

/-- The envelope of the message of which a body is pending. -/
def Pending.envelope? : Pending → Option Envelope
  | body envelope _ _ => some envelope
  | _ => none

namespace Framing

variable {f : Framing} {remote : String}

theorem admits_of_measure {w : Bytes} {sizes : Sizes} {total base early : Nat} {routing : Bytes}
    (h : f.measure w = .ok (some (sizes, total))) (hearly : early < sizes.overhead.toNat)
    (hwhole : sizes.overhead.toNat ≤ w.length) :
    (Arrival.mk (base + early) (base + w.length) f.ceiling).Admits base ⟨sizes, routing, remote⟩ := by
  obtain ⟨-, rfl, -, -, hceiling⟩ := measure_eq_some h
  exact ⟨Nat.add_lt_add_left hearly base, Nat.add_le_add_left hwhole base, hceiling⟩

/-- The decoder takes off allowed messages. If the first envelope was not whole early, all of them became whole with the
bytes behind. -/
theorem admits_decodeAll (hl : f.layout.Lawful) (remote : String) (w : Bytes) (base early : Nat)
    (hearly : ∀ sizes total, f.measure w = .ok (some (sizes, total)) → early < sizes.overhead.toNat) :
    let u := f.decodeAll remote w
    let s : Arrival := ⟨base + early, base + w.length, f.ceiling⟩
    (∀ ds : List Delivery, ds.map (·.message) = u.messages →
        ∀ p ∈ Placed.row base ds, s.Admits p.start p.delivery.message.envelope)
      ∧ u.rest.length ≤ w.length
      ∧ ∀ e, f.readEnvelope u.rest remote = .ok (some e) → s.Admits (base + (w.length - u.rest.length)) e := by
  induction w using decode_induction hl remote generalizing base early with
  | error w e h =>
    rw [decodeAll_of_error h]
    refine ⟨fun ds hds => ?_, Nat.le_refl _, fun envelope hread => ?_⟩
    · obtain rfl := List.map_eq_nil_iff.mp hds
      exact fun p hp => nomatch hp
    · rw [readEnvelope, measure_of_decode_error h] at hread
      cases hread
  | none w h =>
    rw [decodeAll_of_none h]
    refine ⟨fun ds hds => ?_, Nat.le_refl _, fun envelope hread => ?_⟩
    · obtain rfl := List.map_eq_nil_iff.mp hds
      exact fun p hp => nomatch hp
    · obtain ⟨hmeasure, hwhole, -⟩ := readEnvelope_eq_some hread
      rw [Nat.sub_self, Nat.add_zero]
      exact admits_of_measure hmeasure (hearly _ _ hmeasure) hwhole
  | some w m rest h ih =>
    obtain ⟨sizes, total, hmeasure, hle, rfl, rfl⟩ := decode_eq_some h
    obtain ⟨hminimum, hoverhead, htotal⟩ := bounds_of_measure hl hmeasure
    have hfirst := hearly _ _ hmeasure
    have hlen : (w.drop total).length = w.length - total := List.length_drop
    obtain ⟨hrow, hrest, hkept⟩ := ih (base + total) 0 fun sizes' total' hmeasure' =>
      Nat.lt_of_lt_of_le hl.minimum_pos (bounds_of_measure hl hmeasure').2.1
    have hlater {position : Nat} {e : Envelope}
        (hadmits : (Arrival.mk (base + total + 0) (base + total + (w.drop total).length) f.ceiling).Admits position e) :
        (Arrival.mk (base + early) (base + w.length) f.ceiling).Admits position e :=
      hadmits.mono (show base + early ≤ base + total + 0 by omega)
        (show base + total + (w.drop total).length ≤ base + w.length by omega) rfl
    rw [decodeAll_of_some hl h]
    refine ⟨fun ds hds => ?_, ?_, fun e hread => ?_⟩
    · obtain ⟨d, ds, rfl, hd, hds⟩ := List.map_eq_cons_iff.mp hds
      have hsize : d.message.wireSize = total := by
        rw [hd]
        exact (measure_eq_some hmeasure).2.1.symm
      intro p hp
      rw [Placed.row, hsize] at hp
      rcases List.mem_cons.mp hp with rfl | hp
      · simp only [hd]
        exact admits_of_measure hmeasure hfirst (Nat.le_trans htotal hle)
      · exact hlater (hrow ds hds p hp)
    · exact Nat.le_trans hrest (by omega)
    · have hposition : base + (w.length - (f.decodeAll remote (w.drop total)).rest.length)
          = base + total + ((w.drop total).length - (f.decodeAll remote (w.drop total)).rest.length) := by omega
      exact hposition ▸ hlater (hkept e hread)

end Framing

namespace Intake

variable {i : Intake} {pending : Pending} {fresh : Bool} {window : Bytes}

/-! ### Receives that find no body pending -/

theorem lt_overhead_of_open (hl : i.framing.layout.Lawful) (h : pending.Sound i.framing.layout i.remote)
    (hopen : pending.total? = none) {sizes : Sizes} {total : Nat}
    (hmeasure : i.framing.measure (pending.bytes ++ window) = .ok (some (sizes, total))) :
    pending.length < sizes.overhead.toNat := by
  have hpos := hl.minimum_pos
  have hbounds := Framing.bounds_of_measure hl hmeasure
  cases h with
  | idle => exact Nat.lt_of_lt_of_le hpos hbounds.2.1
  | @header received nonempty short =>
    by_cases hlong : i.framing.layout.minimum ≤ received.size
    · obtain ⟨sizes', hsizes', hlt⟩ := short hlong
      have hsizes := (Framing.measure_eq_some hmeasure).1
      rw [Pending.bytes, hl.sizes?_append _ window hlong, hsizes'] at hsizes
      obtain rfl := Option.some.inj hsizes
      exact hlt
    · exact Nat.lt_of_lt_of_le (Nat.lt_of_not_le hlong) hbounds.2.1
  | body whole short total_eq check envelope_eq => cases hopen

/-- What is kept is what the ceiling in force would have had kept, unless the ceiling fell below the message. -/
theorem hold_bytes_of_open (hl : i.framing.layout.Lawful) (h : pending.Sound i.framing.layout i.remote)
    (hopen : pending.total? = none) (hmeasure : ∀ e, i.framing.measure pending.bytes ≠ .error e) :
    i.hold pending.bytes = pending ∧ i.framing.decode i.remote pending.bytes = .ok none := by
  cases h with
  | idle => exact ⟨hold_nil hl, Framing.decode_nil hl⟩
  | @header received nonempty short =>
    have hnil : received.toList ≠ [] := List.length_pos_iff.mp nonempty
    change i.hold received.toList = .header received ∧ i.framing.decode i.remote received.toList = .ok none
    rcases hreceived : i.framing.measure received.toList with e | _ | ⟨sizes, total⟩
    · exact absurd hreceived (hmeasure e)
    · rw [hold_of_measure_none hreceived, if_neg hnil]
      exact ⟨rfl, Framing.decode_of_measure_none hreceived⟩
    · obtain ⟨hminimum, -, htotal⟩ := Framing.bounds_of_measure hl hreceived
      obtain ⟨sizes', hsizes', hlt⟩ := short hminimum
      obtain rfl := Option.some.inj (hsizes'.symm.trans (Framing.measure_eq_some hreceived).1)
      have hlen : received.toList.length = received.size := rfl
      rw [hold_of_measure_some hl hreceived, if_neg (by omega), Framing.decode_of_measure_some hreceived,
        if_neg (by omega)]
      exact ⟨rfl, rfl⟩
  | body whole short total_eq check envelope_eq => cases hopen

/-- **With no body pending a receive is the decoder's under the ceiling in force**, also if the ceiling was another when
the first bytes of the envelope came. -/
theorem runFrom_of_open (hl : i.framing.layout.Lawful) (h : pending.Sound i.framing.layout i.remote)
    (hopen : pending.total? = none) (hlenient : i.allowPartial = true) (fresh : Bool) (hne : window ≠ []) :
    let run := i.runFrom pending fresh window
    let u := i.framing.decodeAll i.remote (pending.bytes ++ window)
    run.result = u.result ∧ messages run.events = u.messages
      ∧ (u.error? = none → run.pending = i.hold u.rest) := by
  have hpartial : ∀ held : Bytes, held = [] → (fresh && !i.allowPartial) = true →
      i.framing.layout.minimum ≤ window.length := fun _ _ hstrict => by simp [hlenient] at hstrict
  by_cases hrefused : ∃ e, i.framing.measure pending.bytes = .error e
  · -- Whatever comes behind, the sizes that came are not allowed any more.
    obtain ⟨e, hrefused⟩ := hrefused
    have hdecode : i.framing.decode i.remote (pending.bytes ++ window) = .error e := by
      apply Framing.decode_of_measure_error
      rw [Framing.measure_append_of_ne_none hl _ _ (by simp [hrefused]), hrefused]
    have hstep : i.step pending fresh window = .error e := by
      cases h with
      | idle =>
        rw [Pending.bytes, (Framing.measure_eq_none_iff hl []).mpr hl.minimum_pos] at hrefused
        cases hrefused
      | header nonempty short => exact extendHeader_of_measure_error hl hrefused
      | body whole short total_eq check envelope_eq => cases hopen
    rw [runFrom_of_error hne hstep, Framing.decodeAll_of_error hdecode]
    exact ⟨rfl, rfl, fun h => nomatch h⟩
  · obtain ⟨hkept, hheld⟩ := hold_bytes_of_open hl h hopen fun e he => hrefused ⟨e, he⟩
    have hrun := runFrom_eq hl hheld (hpartial _)
    rwa [hkept] at hrun

/-! ### Receives that find a body pending -/

theorem runFrom_of_body (envelope : Envelope) (held : Bytes) (total : Nat) (hshort : held.length < total)
    (fresh : Bool) (hne : window ≠ []) :
    i.runFrom (.body envelope held.toArray total) fresh window =
      if total ≤ (held ++ window).length then
        let later := i.runFrom .idle false (window.drop (total - held.length))
        { later with
          events := completed envelope total (((held ++ window).take total).drop envelope.sizes.overhead.toNat) true
            ++ later.events }
      else ⟨.ok (), .body envelope (held ++ window).toArray total,
        [.progress ⟨some envelope, (held ++ window).length, total⟩]⟩ := by
  have hstep : i.step (.body envelope held.toArray total) fresh window = _ :=
    extendBody_eq envelope held window total (Nat.le_of_lt hshort)
  by_cases hwhole : total ≤ (held ++ window).length
  · rw [if_pos hwhole] at hstep ⊢
    rw [List.length_append] at hwhole
    have hsplit := List.take_append_drop (total - held.length) window
    have htaken : (window.take (total - held.length)).length = total - held.length := List.length_take_of_le (by omega)
    have hrun : i.runFrom (.body envelope held.toArray total) fresh
        (window.take (total - held.length) ++ window.drop (total - held.length)) = _ :=
      runFrom_of_step (List.length_pos_iff.mp (by omega)) (by rw [hsplit, htaken, hstep])
    rwa [hsplit] at hrun
  · rw [if_neg hwhole] at hstep ⊢
    exact runFrom_of_last_step hne hstep

/-! ### What a receive admits -/

theorem envelope?_hold {held : Bytes} {e : Envelope} (h : (i.hold held).envelope? = some e) :
    i.framing.readEnvelope held i.remote = .ok (some e) := by
  unfold hold at h
  split at h
  case h_1 envelope hread =>
    cases h
    exact hread
  case h_2 => split at h <;> cases h

/-- A run that does what the decoder does gives out and keeps what the ceiling in force allows. -/
theorem admits_of_run {run : Run} {w : Bytes} (hl : i.framing.layout.Lawful)
    (hrun : let u := i.framing.decodeAll i.remote w
      run.result = u.result ∧ messages run.events = u.messages ∧ (u.error? = none → run.pending = i.hold u.rest))
    (base early : Nat)
    (hearly : ∀ sizes total, i.framing.measure w = .ok (some (sizes, total)) → early < sizes.overhead.toNat) :
    let s : Arrival := ⟨base + early, base + w.length, i.framing.ceiling⟩
    (∀ p ∈ Placed.row base (given run.events), s.Admits p.start p.delivery.message.envelope)
      ∧ (run.result = .ok () → run.pending.length ≤ w.length
        ∧ ∀ e, run.pending.envelope? = some e → s.Admits (base + (w.length - run.pending.length)) e) := by
  obtain ⟨hresult, hmessages, hkept⟩ := hrun
  obtain ⟨hrow, hrest, hread⟩ := Framing.admits_decodeAll hl i.remote w base early hearly
  refine ⟨hrow _ hmessages, fun hok => ?_⟩
  have hclean : (i.framing.decodeAll i.remote w).error? = none := by
    cases herror : (i.framing.decodeAll i.remote w).error? with
    | none => rfl
    | some e =>
      rw [hresult, Framing.Unframed.result, herror] at hok
      cases hok
  rw [hkept hclean, length_hold]
  exact ⟨hrest, fun e he => hread e (envelope?_hold he)⟩

/-- The message that starts at a position was admitted in a receive, or it is the one of which a body was pending
before, which starts at `base`. -/
def Accounted (s : Arrival) (pending : Pending) (base position : Nat) (e : Envelope) : Prop :=
  s.Admits position e ∨ position = base ∧ pending.envelope? = some e

theorem accounted_of_open (hl : i.framing.layout.Lawful) (h : pending.Sound i.framing.layout i.remote)
    (hopen : pending.total? = none) (hlenient : i.allowPartial = true) (fresh : Bool) (hne : window ≠ [])
    (base : Nat) :
    let run := i.runFrom pending fresh window
    let came := pending.length + window.length
    let s : Arrival := ⟨base + pending.length, base + came, i.framing.ceiling⟩
    (∀ p ∈ Placed.row base (given run.events), Accounted s pending base p.start p.delivery.message.envelope)
      ∧ (run.result = .ok () → run.pending.length ≤ came
        ∧ ∀ e, run.pending.envelope? = some e →
          Accounted s pending base (base + (came - run.pending.length)) e) := by
  have hrun := runFrom_of_open hl h hopen hlenient fresh hne
  have hlen : (pending.bytes ++ window).length = pending.length + window.length := by
    rw [List.length_append, Assembler.length_bytes]
  obtain ⟨hrow, hkept⟩ := admits_of_run hl hrun base pending.length fun sizes total hmeasure =>
    lt_overhead_of_open hl h hopen hmeasure
  rw [hlen] at hrow hkept
  exact ⟨fun p hp => .inl (hrow p hp), fun hok => ⟨(hkept hok).1, fun e he => .inl ((hkept hok).2 e he)⟩⟩

theorem accounted_of_body (hl : i.framing.layout.Lawful) {envelope : Envelope} {held : Bytes} {total : Nat}
    (hshort : held.length < total) (htotal : envelope.total = total) (fresh : Bool) (hne : window ≠ []) (base : Nat) :
    let pending : Pending := .body envelope held.toArray total
    let run := i.runFrom pending fresh window
    let came := held.length + window.length
    let s : Arrival := ⟨base + held.length, base + came, i.framing.ceiling⟩
    (∀ p ∈ Placed.row base (given run.events), Accounted s pending base p.start p.delivery.message.envelope)
      ∧ (run.result = .ok () → run.pending.length ≤ came
        ∧ ∀ e, run.pending.envelope? = some e →
          Accounted s pending base (base + (came - run.pending.length)) e) := by
  have hrun := runFrom_of_body (i := i) envelope held total hshort fresh hne
  simp only [hrun]
  by_cases hwhole : total ≤ (held ++ window).length
  · obtain ⟨rest, hrest⟩ : ∃ rest, window.drop (total - held.length) = rest := ⟨_, rfl⟩
    have hlen : held.length + window.length = total + rest.length := by
      rw [List.length_append] at hwhole
      rw [← hrest, List.length_drop]
      omega
    -- Behind the message the receive goes on as if it began there.
    have hbehind := @runFrom_eq i hl [] rest false (Framing.decode_nil hl) fun _ hstrict => nomatch hstrict
    rw [hold_nil hl, List.nil_append] at hbehind
    obtain ⟨hrow, hkept⟩ := admits_of_run hl hbehind (base + total) 0 fun sizes total hmeasure =>
      Nat.lt_of_lt_of_le hl.minimum_pos (Framing.bounds_of_measure hl hmeasure).2.1
    have hlater {position : Nat} {e : Envelope}
        (hadmits : (Arrival.mk (base + total + 0) (base + total + rest.length)
          i.framing.ceiling).Admits position e) :
        (Arrival.mk (base + held.length) (base + (held.length + window.length)) i.framing.ceiling).Admits position e :=
      hadmits.mono (Nat.add_le_add_left (Nat.le_of_lt hshort) base)
        (show base + total + rest.length ≤ base + (held.length + window.length) by omega) rfl
    rw [if_pos hwhole, hrest]
    refine ⟨fun p hp => ?_, fun hok => ?_⟩
    · rcases List.mem_cons.mp hp with rfl | hp
      · exact .inr ⟨rfl, rfl⟩
      · exact .inl (hlater (hrow p (htotal ▸ hp)))
    · obtain ⟨hle, hread⟩ := hkept hok
      refine ⟨Nat.le_trans hle (hlen ▸ Nat.le_add_left _ _), fun e he => .inl ?_⟩
      have hposition : base + (held.length + window.length - (i.runFrom .idle false rest).pending.length)
          = base + total + (rest.length - (i.runFrom .idle false rest).pending.length) := by omega
      exact hposition ▸ hlater (hread e he)
  · rw [if_neg hwhole]
    refine ⟨fun p hp => (nomatch hp), fun _ => ⟨?_, fun e he => .inr ⟨?_, he⟩⟩⟩
    · simp [Pending.length]
    · simp [Pending.length]

theorem accounted_of_run (hl : i.framing.layout.Lawful) (h : pending.Sound i.framing.layout i.remote)
    (hlenient : i.allowPartial = true) (window : Bytes) (base : Nat) :
    let run := i.run pending window
    let came := pending.length + window.length
    let s : Arrival := ⟨base + pending.length, base + came, i.framing.ceiling⟩
    (∀ p ∈ Placed.row base (given run.events), Accounted s pending base p.start p.delivery.message.envelope)
      ∧ (run.result = .ok () → run.pending.length ≤ came
        ∧ ∀ e, run.pending.envelope? = some e →
          Accounted s pending base (base + (came - run.pending.length)) e) := by
  unfold run
  split
  case h_1 => exact ⟨(fun p hp => nomatch hp), fun hok => nomatch hok⟩
  case h_2 =>
    by_cases hne : window = []
    · subst hne
      rw [runFrom_nil]
      refine ⟨(fun p hp => nomatch hp), fun _ => ⟨Nat.le_refl _, fun e he => .inr ⟨?_, he⟩⟩⟩
      simp
    · cases htotal : pending.total? with
      | none => exact accounted_of_open hl h htotal hlenient true hne base
      | some total =>
        cases h with
        | idle => cases htotal
        | header nonempty short => cases htotal
        | body whole short total_eq check envelope_eq => exact accounted_of_body hl short total_eq.symm true hne base

end Intake

/-! ### Runs with moved ceilings -/

/-- What happens to an assembler whose ceiling is moved between receives. -/
inductive Turn where
  | receive (offset : Nat) (data : Bytes)
  | limit (max : Nat)
  deriving DecidableEq

namespace Turn

def bytes : Turn → Bytes
  | receive _ data => data
  | limit _ => []

def operations : Turn → List Operation
  | receive offset data => Operation.receiving (offset, data)
  | limit max => [.setMaxMessageSize max]

/-- The bytes that come have room in a scratch buffer. -/
def Fits (capacity : Nat) : Turn → Prop
  | receive offset data => offset + data.length ≤ capacity
  | limit _ => True

instance (capacity : Nat) : (turn : Turn) → Decidable (turn.Fits capacity)
  | receive offset data => inferInstanceAs (Decidable (offset + data.length ≤ capacity))
  | limit _ => inferInstanceAs (Decidable True)

end Turn

/-- The receives of a run behind `came` bytes, with the ceiling that was in force in each. -/
def arrivals (ceiling came : Nat) : List Turn → List Arrival
  | [] => []
  | .receive _ data :: rest =>
    ⟨came, came + data.length, ceiling⟩ :: arrivals ceiling (came + data.length) rest
  | .limit max :: rest => arrivals max came rest

/-- The receives lie one behind the other, so no two of them bring the end of an envelope. -/
theorem pairwise_arrivals (ceiling came : Nat) (turns : List Turn) :
    (arrivals ceiling came turns).Pairwise (fun s t => s.stop ≤ t.start)
      ∧ ∀ s ∈ arrivals ceiling came turns, came ≤ s.start := by
  induction turns generalizing ceiling came with
  | nil => exact ⟨.nil, fun s hs => nomatch hs⟩
  | cons turn rest ih =>
    cases turn with
    | limit max => exact ih max came
    | receive offset data =>
      obtain ⟨hrest, hbehind⟩ := ih ceiling (came + data.length)
      refine ⟨.cons hbehind hrest, fun s hs => ?_⟩
      rcases List.mem_cons.mp hs with rfl | hs
      · exact Nat.le_refl _
      · exact Nat.le_trans (Nat.le_add_right _ _) (hbehind s hs)

namespace Assembler

variable {a : Assembler} {remote : String}

/-- The messages that an assembler gives out in a run, and where they lie, if `came` bytes came before and the last of
these are pending. -/
def placedIn (a : Assembler) (came : Nat) : List Turn → List Placed
  | [] => []
  | .receive offset data :: rest =>
    let r := a.receiveAt offset data
    Placed.row (came - a.pending.length) r.deliveries ++ r.assembler.placedIn (came + data.length) rest
  | .limit max :: rest => (a.setMaxMessageSize max).placedIn came rest

theorem map_delivery_placedIn (a : Assembler) (came : Nat) (turns : List Turn) :
    (a.placedIn came turns).map (·.delivery)
      = (a.log (turns.flatMap Turn.operations)).filterMap (·.delivery?) := by
  induction turns generalizing a came with
  | nil => rfl
  | cons turn rest ih =>
    cases turn with
    | limit max => exact ih (a.setMaxMessageSize max) came
    | receive offset data =>
      obtain ⟨-, hlog⟩ := a.receiveAt_eq_perform (offset, data) (rest.flatMap Turn.operations)
      rw [placedIn, List.map_append, Placed.map_delivery_row, ih, List.flatMap_cons, Turn.operations, hlog,
        List.filterMap_append]
      rfl

theorem Sound.accounted_of_receiveAt (h : a.Sound .standard remote) (hlenient : a.settings.allowPartial = true)
    (offset : Nat) (data : Bytes)
    (hfits : ∀ scratch, a.storage = .ready scratch → offset + data.length ≤ scratch.capacity) (base : Nat) :
    let r := a.receiveAt offset data
    let came := a.pending.length + data.length
    let s : Arrival := ⟨base + a.pending.length, base + came, a.settings.maxMessageSize⟩
    (∀ p ∈ Placed.row base r.deliveries, Intake.Accounted s a.pending base p.start p.delivery.message.envelope)
      ∧ r.assembler.pending.length ≤ came
      ∧ ∀ e, r.assembler.pending.envelope? = some e →
        Intake.Accounted s a.pending base (base + (came - r.assembler.pending.length)) e := by
  rcases h.receiveAt_cases offset data hfits with ⟨e, -, hidle, hrefused⟩ | ⟨-, hgiven, hok, herror⟩
  · rw [hrefused]
    refine ⟨(fun p hp => nomatch hp), Nat.le_add_right _ _, fun e he => ?_⟩
    change a.pending.envelope? = some e at he
    rw [hidle] at he
    cases he
  · obtain ⟨hlayout, rfl, hpending, -⟩ := h
    have hl : a.layout.Lawful := hlayout ▸ Layout.standard_lawful
    obtain ⟨hrow, hkept⟩ := Intake.accounted_of_run (i := a.intake) hl (hlayout ▸ hpending) hlenient data base
    refine ⟨hgiven ▸ hrow, ?_⟩
    cases hresult : (a.intake.run a.pending data).result with
    | ok =>
      rw [hok hresult]
      exact hkept hresult
    | error e =>
      rw [herror e hresult]
      exact ⟨Nat.zero_le _, fun e he => nomatch he⟩

/-- **What was admitted is told by where it lies**: each message given out in a run, and the one of which a body is
pending at the end. -/
theorem Sound.admitted_of_placedIn (h : a.Sound .standard remote) (hmade : a.MadeFor .standard remote)
    (hlenient : a.settings.allowPartial = true) (turns : List Turn)
    (hfits : ∀ turn ∈ turns, turn.Fits (max a.settings.scratchCapacity 1)) (base : Nat) (seen : List Arrival)
    (hbody : ∀ e, a.pending.envelope? = some e → ∃ s ∈ seen, s.Admits base e) :
    let came := base + a.pending.length
    let all := seen ++ arrivals a.settings.maxMessageSize came turns
    let b := a.after (turns.flatMap Turn.operations)
    (∀ p ∈ a.placedIn came turns, ∃ s ∈ all, s.Admits p.start p.delivery.message.envelope)
      ∧ ∀ e, b.pending.envelope? = some e →
        ∃ s ∈ all, s.Admits (came + (turns.flatMap Turn.bytes).length - b.pending.length) e := by
  induction turns generalizing a base seen with
  | nil =>
    refine ⟨(fun p hp => nomatch hp), fun e he => ?_⟩
    obtain ⟨s, hs, hadmits⟩ := hbody e he
    refine ⟨s, List.mem_append_left _ hs, ?_⟩
    have hposition : base + a.pending.length + 0 - a.pending.length = base := by omega
    exact hposition.symm ▸ hadmits
  | cons turn rest ih =>
    have hrest : ∀ turn ∈ rest, turn.Fits (max a.settings.scratchCapacity 1) :=
      fun turn hturn => hfits turn (List.mem_cons_of_mem _ hturn)
    cases turn with
    | limit max =>
      exact ih (a := a.setMaxMessageSize max) (h.setMaxMessageSize max) (hmade.setMaxMessageSize max) hlenient hrest
        base seen hbody
    | receive offset data =>
      have hroom : offset + data.length ≤ max a.settings.scratchCapacity 1 := hfits _ List.mem_cons_self
      obtain ⟨hrow, hle, hkept⟩ := h.accounted_of_receiveAt hlenient offset data
        (fun scratch hstorage => hmade.capacity_eq scratch hstorage ▸ hroom) base
      have hsound := h.receiveAt offset data
      have hmade' := hmade.receiveAt offset data
      have hsettings := a.settings_receiveAt offset data
      have hb : a.after ((Turn.receive offset data :: rest).flatMap Turn.operations) = _ :=
        a.after_receiving (offset, data) (rest.flatMap Turn.operations)
      -- What the receive accounts for it admitted itself, or it was admitted in one of those seen before.
      obtain ⟨s, hs⟩ : ∃ s : Arrival, s = ⟨base + a.pending.length, base + a.pending.length + data.length,
        a.settings.maxMessageSize⟩ := ⟨_, rfl⟩
      obtain ⟨r, hr⟩ : ∃ r, a.receiveAt offset data = r := ⟨_, rfl⟩
      rw [← Nat.add_assoc, ← hs, hr] at hrow hkept
      rw [hr] at hle hsettings hsound hmade' hb
      have haccounted {position : Nat} {e : Envelope} (haccounted : Intake.Accounted s a.pending base position e) :
          ∃ s' ∈ seen ++ [s], s'.Admits position e := by
        rcases haccounted with hadmits | ⟨rfl, he⟩
        · exact ⟨s, by simp, hadmits⟩
        · obtain ⟨s', hs', hadmits⟩ := hbody e he
          exact ⟨s', List.mem_append_left _ hs', hadmits⟩
      have hall : seen ++ arrivals a.settings.maxMessageSize (base + a.pending.length) (.receive offset data :: rest)
          = seen ++ [s]
            ++ arrivals r.assembler.settings.maxMessageSize (base + a.pending.length + data.length) rest := by
        rw [arrivals, ← hs, hsettings, List.append_assoc, List.singleton_append]
      have hcame : base + (a.pending.length + data.length - r.assembler.pending.length) + r.assembler.pending.length
          = base + a.pending.length + data.length := by omega
      obtain ⟨hplaced, hpending⟩ := ih hsound hmade' (hsettings ▸ hlenient) (hsettings ▸ hrest)
        (base + (a.pending.length + data.length - r.assembler.pending.length)) (seen ++ [s])
        fun e he => haccounted (hkept e he)
      rw [hcame, ← hall] at hplaced hpending
      refine ⟨fun p hp => ?_, fun e he => ?_⟩
      · rw [placedIn, hr, Nat.add_sub_cancel] at hp
        rcases List.mem_append.mp hp with hnow | hlater
        · obtain ⟨s', hs', hadmits⟩ := haccounted (hrow p hnow)
          exact ⟨s', hall ▸ List.mem_append_left _ hs', hadmits⟩
        · exact hplaced p hlater
      · have hbytes : base + a.pending.length + ((Turn.receive offset data :: rest).flatMap Turn.bytes).length
            = base + a.pending.length + data.length + (rest.flatMap Turn.bytes).length := by
          rw [List.flatMap_cons, List.length_append, ← Nat.add_assoc]
          rfl
        rw [hb] at he
        obtain ⟨s', hs', hadmits⟩ := hpending e he
        refine ⟨s', hs', ?_⟩
        rw [hb, hbytes]
        exact hadmits

/-- Each message given out in a run lies where it is said to, and what is kept in the end lies at the end. -/
theorem Sound.wire_of_placedIn (h : a.Sound .standard remote) (hmade : a.MadeFor .standard remote) (turns : List Turn)
    (hfits : ∀ turn ∈ turns, turn.Fits (max a.settings.scratchCapacity 1)) (gone : Bytes) :
    let stream := gone ++ a.pending.bytes ++ turns.flatMap Turn.bytes
    (∀ p ∈ a.placedIn (gone ++ a.pending.bytes).length turns,
        Layout.standard.encodeMessage p.delivery.message.routing p.delivery.message.payload
          = .ok ((stream.drop p.start).take p.delivery.message.wireSize))
      ∧ (a.after (turns.flatMap Turn.operations)).pending.bytes <:+ stream := by
  induction turns generalizing a gone with
  | nil =>
    refine ⟨(fun p hp => nomatch hp), ?_⟩
    rw [List.flatMap_nil, List.flatMap_nil, List.append_nil]
    exact List.suffix_append _ _
  | cons turn rest ih =>
    have hrest : ∀ turn ∈ rest, turn.Fits (max a.settings.scratchCapacity 1) :=
      fun turn hturn => hfits turn (List.mem_cons_of_mem _ hturn)
    cases turn with
    | limit max =>
      exact ih (a := a.setMaxMessageSize max) (h.setMaxMessageSize max) (hmade.setMaxMessageSize max) hrest gone
    | receive offset data =>
      have hroom : offset + data.length ≤ max a.settings.scratchCapacity 1 := hfits _ List.mem_cons_self
      obtain ⟨-, hends, gone', hall, -, -⟩ := h.endsIn_of_receiveAt offset data
        (fun scratch hstorage => hmade.capacity_eq scratch hstorage ▸ hroom) gone
      have hsettings := a.settings_receiveAt offset data
      obtain ⟨hlater, hkept⟩ := ih (h.receiveAt offset data) (hmade.receiveAt offset data)
        (hsettings ▸ hrest) gone'
      rw [hall] at hlater hkept
      have hstream : gone ++ a.pending.bytes ++ (Turn.receive offset data :: rest).flatMap Turn.bytes
          = gone ++ a.pending.bytes ++ data ++ rest.flatMap Turn.bytes := (List.append_assoc _ _ _).symm
      have hstart : (gone ++ a.pending.bytes).length - a.pending.length = gone.length := by
        rw [List.length_append, length_bytes, Nat.add_sub_cancel]
      rw [hstream]
      refine ⟨fun p hp => ?_, ?_⟩
      · rw [placedIn, hstart, ← List.length_append] at hp
        rcases List.mem_append.mp hp with hnow | hp
        · exact (hends p hnow).1.encodeMessage_eq _
        · exact hlater p hp
      · rw [List.flatMap_cons, Turn.operations, after_receiving]
        exact hkept

/-! ### Bodies that are pending -/

theorem Sound.length_lt_of_body (h : a.Sound .standard remote) {envelope : Envelope} {held : Bytes} {total : Nat}
    (hbody : a.pending = .body envelope held.toArray total) : held.length < total := by
  have hshort : a.pending.length < total := h.length_lt_total (by rw [hbody, Pending.total?])
  rwa [hbody] at hshort

/-- **A body that is pending is completed under any ceiling**, as soon as its bytes have come. -/
theorem Sound.receiveAt_of_body (h : a.Sound .standard remote) {envelope : Envelope} {held : Bytes} {total : Nat}
    (hbody : a.pending = .body envelope held.toArray total) (offset : Nat) (data : Bytes)
    (hfits : ∀ scratch, a.storage = .ready scratch → offset + data.length ≤ scratch.capacity) :
    let r := a.receiveAt offset data
    ((held ++ data).length < total →
        r.deliveries = [] ∧ r.assembler.pending = .body envelope (held ++ data).toArray total)
      ∧ (total ≤ (held ++ data).length → r.deliveries.head?
        = some ⟨⟨envelope, ((held ++ data).take total).drop envelope.sizes.overhead.toNat⟩, true⟩) := by
  have hshort := h.length_lt_of_body hbody
  rcases h.receiveAt_cases offset data hfits with ⟨e, -, hidle, -⟩ | ⟨-, hgiven, hok, -⟩
  · rw [hbody] at hidle
    cases hidle
  · rw [hbody] at hgiven hok
    have hrun : a.intake.run (.body envelope held.toArray total) data
        = a.intake.runFrom (.body envelope held.toArray total) true data := rfl
    rw [hrun] at hgiven hok
    by_cases hne : data = []
    · subst hne
      rw [Intake.runFrom_nil] at hgiven hok
      rw [List.append_nil]
      exact ⟨fun _ => ⟨hgiven, hok rfl⟩, fun hle => absurd hshort (Nat.not_lt_of_le hle)⟩
    · rw [Intake.runFrom_of_body envelope held total hshort true hne] at hgiven hok
      by_cases hwhole : total ≤ (held ++ data).length
      · rw [if_pos hwhole] at hgiven
        refine ⟨fun hlt => absurd hwhole (Nat.not_le_of_lt hlt), fun _ => ?_⟩
        rw [hgiven]
        rfl
      · rw [if_neg hwhole] at hgiven hok
        exact ⟨fun _ => ⟨hgiven, hok rfl⟩, fun hle => absurd hle hwhole⟩

/-- So it is whatever is done to the ceiling between the receives that bring them. -/
theorem Sound.after_of_body (h : a.Sound .standard remote) (hmade : a.MadeFor .standard remote) {envelope : Envelope}
    {held : Bytes} {total : Nat} (hbody : a.pending = .body envelope held.toArray total) (turns : List Turn)
    (hfits : ∀ turn ∈ turns, turn.Fits (max a.settings.scratchCapacity 1)) :
    let calls := turns.flatMap Turn.operations
    let bytes := held ++ turns.flatMap Turn.bytes
    let given := Intake.given (a.log calls)
    (bytes.length < total → given = [] ∧ (a.after calls).pending = .body envelope bytes.toArray total)
      ∧ (total ≤ bytes.length → given.head?
        = some ⟨⟨envelope, (bytes.take total).drop envelope.sizes.overhead.toNat⟩, true⟩) := by
  induction turns generalizing a held with
  | nil =>
    have hshort := h.length_lt_of_body hbody
    rw [List.flatMap_nil, List.flatMap_nil, List.append_nil]
    exact ⟨fun _ => ⟨rfl, hbody⟩, fun hle => absurd hshort (Nat.not_lt_of_le hle)⟩
  | cons turn rest ih =>
    have hrest : ∀ turn ∈ rest, turn.Fits (max a.settings.scratchCapacity 1) :=
      fun turn hturn => hfits turn (List.mem_cons_of_mem _ hturn)
    cases turn with
    | limit max =>
      exact ih (a := a.setMaxMessageSize max) (h.setMaxMessageSize max) (hmade.setMaxMessageSize max) hbody hrest
    | receive offset data =>
      have hroom : offset + data.length ≤ max a.settings.scratchCapacity 1 := hfits _ List.mem_cons_self
      obtain ⟨hmore, hdone⟩ := h.receiveAt_of_body hbody offset data fun scratch hstorage =>
        hmade.capacity_eq scratch hstorage ▸ hroom
      obtain ⟨-, hlog⟩ := a.receiveAt_eq_perform (offset, data) (rest.flatMap Turn.operations)
      have hsettings := a.settings_receiveAt offset data
      have hbytes : held ++ (Turn.receive offset data :: rest).flatMap Turn.bytes
          = held ++ data ++ rest.flatMap Turn.bytes := (List.append_assoc _ _ _).symm
      have hcalls : a.after ((Turn.receive offset data :: rest).flatMap Turn.operations) = _ :=
        a.after_receiving (offset, data) (rest.flatMap Turn.operations)
      have hgiven : Intake.given (a.log ((Turn.receive offset data :: rest).flatMap Turn.operations))
          = (a.receiveAt offset data).deliveries
            ++ Intake.given ((a.receiveAt offset data).assembler.log (rest.flatMap Turn.operations)) := by
        rw [List.flatMap_cons, Turn.operations, hlog, Intake.given_append]
        rfl
      simp only [hbytes, hcalls, hgiven]
      -- Either this receive gives the message out first of all, or it only adds to the body.
      by_cases hwhole : total ≤ (held ++ data).length
      · refine ⟨fun hlt => ?_, fun _ => ?_⟩
        · rw [List.length_append] at hlt
          omega
        · rw [List.head?_append, hdone hwhole, List.take_append_of_le_length hwhole]
          rfl
      · obtain ⟨hnone, hnext⟩ := hmore (Nat.lt_of_not_le hwhole)
        rw [hnone, List.nil_append]
        exact ih (h.receiveAt offset data) (hmade.receiveAt offset data) hnext (hsettings ▸ hrest)

theorem Sound.receiveAt_of_open (h : a.Sound .standard remote) (hlenient : a.settings.allowPartial = true)
    (hopen : a.pending.total? = none) {scratch : Scratch} (hstorage : a.storage = .ready scratch) {offset : Nat}
    {data : Bytes} (hne : data ≠ []) (hfits : offset + data.length ≤ scratch.capacity) :
    let r := a.receiveAt offset data
    let u := (Framing.mk .standard a.settings.maxMessageSize).decodeAll remote (a.pending.bytes ++ data)
    r.result = u.result ∧ r.deliveries.map (·.message) = u.messages := by
  obtain ⟨hlayout, rfl, hpending, -⟩ := h
  have hl : a.layout.Lawful := hlayout ▸ Layout.standard_lawful
  have hframing : a.framing = ⟨.standard, a.settings.maxMessageSize⟩ := by rw [framing, hlayout]
  have hpending' : a.pending.Sound a.layout a.remote := hlayout ▸ hpending
  obtain ⟨hresult, hmessages, -⟩ :=
    Intake.runFrom_of_open (i := a.intake) hl hpending' hopen hlenient true hne
  rw [← hframing, receiveAt_eq hstorage hne hfits]
  refine ⟨hresult, (messages_heard _ _).trans ?_⟩
  split
  · exact hmessages
  · rw [Intake.messages_append]
    exact (List.append_nil _).trans hmessages

/-- **The ceiling decides about a message when its envelope becomes whole, and not again.** Such a message is given out
with its last byte, however the ceiling moves. -/
theorem ceiling_decides_at_envelope (remote : String) (settings : AssemblerSettings) (turns : List Turn)
    (hlenient : settings.allowPartial = true)
    (hfits : ∀ turn ∈ turns, turn.Fits (max settings.scratchCapacity 1)) :
    let a := ofSettings .standard remote settings
    let stream := turns.flatMap Turn.bytes
    let placed := a.placedIn 0 turns
    let admitting := arrivals settings.maxMessageSize 0 turns
    let last := a.after (turns.flatMap Turn.operations)
    placed.map (·.delivery) = Intake.given (a.log (turns.flatMap Turn.operations))
      ∧ admitting.Pairwise (fun s t => s.stop ≤ t.start)
      ∧ (∀ p ∈ placed, let m := p.delivery.message
        Layout.standard.encodeMessage m.routing m.payload = .ok ((stream.drop p.start).take m.wireSize)
          ∧ ∃ s ∈ admitting, s.Admits p.start m.envelope)
      ∧ last.pending.bytes <:+ stream
      ∧ (∀ e received total, last.pending = .body e received total →
        e.total = total ∧ ∃ s ∈ admitting, s.Admits (stream.length - received.size) e)
      ∧ ∀ earlier later, turns = earlier ++ later →
        let b := a.after (earlier.flatMap Turn.operations)
        (∀ e received total, b.pending = .body e received total →
          let bytes := received.toList ++ later.flatMap Turn.bytes
          let given := Intake.given (b.log (later.flatMap Turn.operations))
          (bytes.length < total → given = [] ∧ last.pending = .body e bytes.toArray total)
            ∧ (total ≤ bytes.length →
              given.head? = some ⟨⟨e, (bytes.take total).drop e.sizes.overhead.toNat⟩, true⟩))
        ∧ ∀ offset data rest scratch, later = .receive offset data :: rest → data ≠ [] →
          b.pending.total? = none → b.storage = .ready scratch →
          let r := b.receiveAt offset data
          let u := (Framing.mk .standard b.settings.maxMessageSize).decodeAll remote (b.pending.bytes ++ data)
          r.result = u.result ∧ r.deliveries.map (·.message) = u.messages := by
  intro a stream placed admitting last
  have hsound : a.Sound .standard remote := sound_ofSettings _ _ _
  have hmade : a.MadeFor .standard remote := madeFor_ofSettings _ _ _
  obtain ⟨hplaced, hlast⟩ := hsound.admitted_of_placedIn hmade hlenient turns hfits 0 [] fun e he => nomatch he
  obtain ⟨hwire, hkept⟩ := hsound.wire_of_placedIn hmade turns hfits []
  have hpending := (hsound.after Layout.standard_lawful (turns.flatMap Turn.operations)).pending
  refine ⟨a.map_delivery_placedIn 0 turns, (pairwise_arrivals _ _ _).1, fun p hp => ⟨hwire p hp, hplaced p hp⟩,
    hkept, ?_, ?_⟩
  · intro e received total hbody
    change last.pending.Sound .standard remote at hpending
    have hlast' := hlast e (show last.pending.envelope? = some e by rw [hbody, Pending.envelope?])
    have hposition : 0 + 0 + stream.length - last.pending.length = stream.length - received.size := by
      rw [hbody, Pending.length]
      omega
    rw [hbody] at hpending
    cases hpending with
    | body whole short total_eq check envelope_eq => exact ⟨total_eq.symm, hposition ▸ hlast'⟩
  · rintro earlier later rfl b
    have hb : b.Sound .standard remote := hsound.after Layout.standard_lawful _
    have hmade' : b.MadeFor .standard remote := hmade.after _
    have hcapacity : b.settings.scratchCapacity = settings.scratchCapacity := scratchCapacity_after a _
    have hlenient' : b.settings.allowPartial = true := (allowPartial_after a _).trans hlenient
    have hlater : ∀ turn ∈ later, turn.Fits (max b.settings.scratchCapacity 1) := fun turn hturn =>
      hcapacity ▸ hfits turn (List.mem_append_right _ hturn)
    have hend : last = b.after (later.flatMap Turn.operations) := by
      show a.after ((earlier ++ later).flatMap Turn.operations) = _
      rw [List.flatMap_append, after_append]
    refine ⟨fun e received total hbody => ?_, ?_⟩
    · obtain ⟨held⟩ := received
      rw [hend]
      exact hb.after_of_body hmade' hbody later hlater
    · rintro offset data rest scratch rfl hne hopen hstorage
      have hroom : offset + data.length ≤ max b.settings.scratchCapacity 1 := hlater _ List.mem_cons_self
      exact hb.receiveAt_of_open hlenient' hopen hstorage hne (hmade'.capacity_eq scratch hstorage ▸ hroom)

/-- A message whose payload comes under a ceiling that is too low for it, and one that the ceiling falls below when only
the routing is still to come. -/
theorem ceiling_decides_at_envelope_of_lowered :
    let settings : AssemblerSettings := { maxMessageSize := 13, scratchCapacity := 16 }
    let earlier : List Turn := [.receive 0 [2, 0, 0, 0, 0xa7, 0xa5, 0xa5, 0xa5, 1, 0, 7]]
    let later : List Turn :=
      [.limit 3, .receive 0 [1, 4], .limit 12, .receive 2 [1, 0, 0, 0, 0xa4, 0xa5, 0xa5, 0xa5, 1, 0], .limit 11,
        .receive 0 [5, 9]]
    let a := ofSettings .standard "peer" settings
    let b := a.after (earlier.flatMap Turn.operations)
    let admitting := arrivals 13 0 (earlier ++ later)
    (∀ turn ∈ earlier ++ later, turn.Fits (max settings.scratchCapacity 1))
      ∧ admitting = [⟨0, 11, 13⟩, ⟨11, 13, 3⟩, ⟨13, 23, 12⟩, ⟨23, 25, 11⟩]
      ∧ (a.placedIn 0 (earlier ++ later)).map (fun p => (p.start, p.stop)) = [(0, 13)]
      ∧ (∀ p ∈ a.placedIn 0 (earlier ++ later), ∃ s ∈ admitting, s.Admits p.start p.delivery.message.envelope)
      ∧ (Intake.given (b.log (later.flatMap Turn.operations))).head?
        = some ⟨⟨⟨⟨2, 0xa5a5a5a7, 11⟩, [7], "peer"⟩, [1, 4]⟩, true⟩ := by
  intro settings earlier later a b admitting
  have hfits : ∀ turn ∈ earlier ++ later, turn.Fits (max settings.scratchCapacity 1) := by decide
  have hbody : b.pending
      = .body ⟨⟨2, 0xa5a5a5a7, 11⟩, [7], "peer"⟩ #[2, 0, 0, 0, 0xa7, 0xa5, 0xa5, 0xa5, 1, 0, 7] 13 := by
    decide +kernel
  obtain ⟨-, -, hplaced, -, -, hsplits⟩ := ceiling_decides_at_envelope "peer" settings (earlier ++ later) rfl hfits
  obtain ⟨hgiven, -⟩ := hsplits earlier later rfl
  exact ⟨hfits, rfl, by decide +kernel, fun p hp => (hplaced p hp).2, (hgiven _ _ _ hbody).2 (by decide)⟩

end Assembler

end MessageWire
