import MessageWire.Proofs.Framing.Safety
/-!
# What framing asks of a layout

A layout may put anything into the sizes that it tells. Where partial headers are allowed, framing then takes in at
least a byte with every step, and never more of a message than it has, exactly if no message is allowed that is shorter
than the bytes needed to tell its size (`Intake.safe_iff_covers`). Nothing checks that: a layout may announce messages
of no bytes, which no step gets rid of, or messages of which more has been kept than there is
(`Intake.not_safe_of_answers`). An envelope that is no shorter than its fixed part is enough, as it is in all lawful
layouts (`Framing.covers_of_lawful`).
-/

namespace MessageWire

/-- The first `minimum` bytes tell the sizes, whatever these are. -/
structure Layout.Answers (l : Layout) : Prop where
  minimum_pos : 0 < l.minimum
  sizes?_eq_none_iff : ∀ w, l.sizes? w = none ↔ w.length < l.minimum
  sizes?_append : ∀ w more, l.minimum ≤ w.length → l.sizes? (w ++ more) = l.sizes? w

theorem Layout.Lawful.answers {l : Layout} (hl : l.Lawful) : l.Answers :=
  ⟨hl.minimum_pos, hl.sizes?_eq_none_iff, hl.sizes?_append⟩

namespace Framing

variable {f : Framing}

/-- No message is allowed that is shorter than the bytes needed to tell its size. -/
def Covers (f : Framing) : Prop :=
  ∀ w sizes total, f.measure w = .ok (some (sizes, total)) → f.layout.minimum ≤ total

theorem covers_of_lawful (hl : f.layout.Lawful) : f.Covers := fun _ _ _ hmeasure =>
  Nat.le_trans (bounds_of_measure hl hmeasure).2.1 (overhead_le_of_measure hmeasure)

theorem measure_eq_none_iff_of_answers (hl : f.layout.Answers) (w : Bytes) :
    f.measure w = .ok none ↔ w.length < f.layout.minimum := by
  rw [← hl.sizes?_eq_none_iff, measure_eq_none_iff_sizes?]

end Framing

/-- What is kept is less than the envelope, or less than the message. -/
inductive Pending.Contained (l : Layout) : Pending → Prop
  | idle : Contained l .idle
  | header {received : Array UInt8} (nonempty : 0 < received.size)
      (short : l.minimum ≤ received.size →
        ∃ sizes, l.sizes? received.toList = some sizes ∧ received.size < sizes.overhead.toNat) :
      Contained l (.header received)
  | body {envelope : Envelope} {received : Array UInt8} {total : Nat}
      (whole : envelope.sizes.overhead.toNat ≤ received.size) (short : received.size < total) :
      Contained l (.body envelope received total)

namespace Intake

variable {i : Intake} {pending : Pending} {fresh : Bool} {held window : Bytes} {advance : Advance}

/-- A step that stays inside of its bytes, and takes in at least one of them if it is not refused. -/
structure Goes (i : Intake) (pending : Pending) (fresh : Bool) (window : Bytes) : Prop where
  inside : i.step? pending fresh window = some (i.step pending fresh window)
  moves : ∀ advance, i.step pending fresh window = .ok advance → 1 ≤ advance.consumed

/-- What may be pending after some receives. -/
inductive Reaches (i : Intake) : Pending → Prop
  | idle : Reaches i .idle
  | receive {pending : Pending} (before : Reaches i pending) (window : Bytes) : Reaches i (i.run pending window).pending

/-- Every step of every receive stays inside of its bytes and takes in at least one. -/
def Safe (i : Intake) : Prop :=
  ∀ pending window next fresh rest, i.Reaches pending → i.Visits pending window next fresh rest → rest ≠ [] →
    i.Goes next fresh rest

/-! ### Layouts that cover what they tell -/

theorem contained_of_begin (hl : i.framing.layout.Answers) (hcovers : i.framing.Covers) (hne : window ≠ [])
    (h : i.begin fresh window = .ok advance) :
    1 ≤ advance.consumed ∧ advance.pending.Contained i.framing.layout := by
  have hpos := List.length_pos_iff.mpr hne
  rw [begin] at h
  rcases hmeasure : i.framing.measure window with e | _ | ⟨sizes, total⟩
  case error => simp [hmeasure] at h
  case ok.none =>
    have hshort := (Framing.measure_eq_none_iff_of_answers hl window).mp hmeasure
    simp only [hmeasure] at h
    split at h
    · cases h
    · cases h
      exact ⟨hpos, .header hpos fun hlong => absurd hshort (Nat.not_lt_of_le hlong)⟩
  case ok.some =>
    have hminimum := hcovers _ _ _ hmeasure
    have hmin := hl.minimum_pos
    simp only [hmeasure, Bool.not_eq_true', ← Bool.not_eq_true, reaches_iff] at h
    split at h
    case isTrue hover =>
      cases h
      exact ⟨hpos, .header hpos fun _ => ⟨sizes, (Framing.measure_eq_some hmeasure).1, Nat.lt_of_not_le hover⟩⟩
    case isFalse hover =>
      split at h
      · cases h
        exact ⟨Nat.le_trans hmin hminimum, .idle⟩
      case isFalse htotal =>
        cases h
        exact ⟨hpos, .body (Decidable.not_not.mp hover) (Nat.lt_of_not_le htotal)⟩

theorem contained_of_extendBody {envelope : Envelope} {total : Nat} {l : Layout}
    (hoverhead : envelope.sizes.overhead.toNat ≤ held.length) (hle : held.length ≤ total)
    (h : extendBody envelope held.toArray total window = .ok advance) :
    (held.length < total → window ≠ [] → 1 ≤ advance.consumed) ∧ advance.pending.Contained l := by
  rw [extendBody_eq _ _ _ _ hle] at h
  split at h
  · cases h
    exact ⟨fun hlt _ => Nat.sub_pos_of_lt hlt, .idle⟩
  case isFalse htotal =>
    cases h
    refine ⟨fun _ hne => List.length_pos_iff.mpr hne, .body ?_ ?_⟩
    · simp only [List.size_toArray, List.length_append]
      omega
    · simp only [List.size_toArray]
      omega

/-- Filling up the fixed part of an envelope takes in no more than the message. -/
theorem length_le_of_contained (hl : i.framing.layout.Answers) (hcovers : i.framing.Covers)
    (hheld : (Pending.header held.toArray).Contained i.framing.layout) {first : Bytes} {sizes : Sizes} {total : Nat}
    (hfirst : first.length ≤ i.framing.layout.minimum - held.length)
    (hmeasure : i.framing.measure (held ++ first) = .ok (some (sizes, total))) :
    (held ++ first).length ≤ total
      ∧ (i.framing.layout.minimum ≤ held.length → held.length < sizes.overhead.toNat) := by
  cases hheld with
  | header nonempty short =>
    rw [List.length_append]
    by_cases hlong : i.framing.layout.minimum ≤ held.length
    · obtain ⟨sizes', hsizes', hlt⟩ := short hlong
      have hsizes := (Framing.measure_eq_some hmeasure).1
      rw [hl.sizes?_append _ _ hlong, hsizes'] at hsizes
      obtain rfl := Option.some.inj hsizes
      have hoverhead := Framing.overhead_le_of_measure hmeasure
      have hlt' : held.length < sizes'.overhead.toNat := hlt
      exact ⟨by omega, fun _ => hlt'⟩
    · have hminimum := hcovers _ _ _ hmeasure
      exact ⟨by omega, fun h => absurd h hlong⟩

theorem contained_of_extendHeader (hl : i.framing.layout.Answers) (hcovers : i.framing.Covers) (hne : window ≠ [])
    (hheld : (Pending.header held.toArray).Contained i.framing.layout)
    (h : i.extendHeader held.toArray window = .ok advance) :
    1 ≤ advance.consumed ∧ advance.pending.Contained i.framing.layout := by
  have hpos := List.length_pos_iff.mpr hne
  have hnonempty : 0 < held.length := by
    cases hheld with
    | header nonempty short => exact nonempty
  obtain ⟨first, hfirst⟩ : ∃ first, window.take (i.framing.layout.minimum - held.length) = first := ⟨_, rfl⟩
  have hlenFirst : first.length = min (i.framing.layout.minimum - held.length) window.length := by
    rw [← hfirst, List.length_take]
  have hlenHeld : (held ++ first).length = held.length + first.length := List.length_append
  unfold extendHeader at h
  simp only [List.size_toArray, hfirst, appendList_toArray] at h
  rcases hmeasure : i.framing.measure (held ++ first) with e | _ | ⟨sizes, total⟩
  case error => simp [hmeasure] at h
  case ok.none =>
    have hshort := (Framing.measure_eq_none_iff_of_answers hl _).mp hmeasure
    simp only [hmeasure, if_pos hshort] at h
    cases h
    refine ⟨show 1 ≤ first.length by omega, .header (show 0 < (held ++ first).length by omega) fun hlong => ?_⟩
    exact absurd hshort (Nat.not_lt_of_le hlong)
  case ok.some =>
    obtain ⟨hle, hlong⟩ := length_le_of_contained hl hcovers hheld (by omega) hmeasure
    have hminimum : i.framing.layout.minimum ≤ (held ++ first).length := by
      have hnone := Framing.measure_eq_none_iff_of_answers hl (held ++ first)
      rw [hmeasure] at hnone
      simpa using hnone
    have hoverhead := Framing.overhead_le_of_measure hmeasure
    obtain ⟨more, hmore⟩ : ∃ more,
      (window.drop first.length).take (sizes.overhead.toNat - (held ++ first).length) = more := ⟨_, rfl⟩
    have hlenMore : more.length
        = min (sizes.overhead.toNat - (held ++ first).length) (window.length - first.length) := by
      rw [← hmore, List.length_take, List.length_drop]
    -- A byte is missing of the fixed part, or else of the envelope that it tells.
    have htaken : 1 ≤ first.length + more.length := by
      by_cases hheldLong : i.framing.layout.minimum ≤ held.length
      · have hlt := hlong hheldLong
        omega
      · omega
    have hlenWhole : (held ++ first ++ more).length = (held ++ first).length + more.length := List.length_append
    simp only [hmeasure, hmore] at h
    split at h
    case isTrue hover =>
      cases h
      refine ⟨htaken, .header (show 0 < (held ++ first ++ more).length by omega) fun _ => ⟨sizes, ?_, hover⟩⟩
      exact (hl.sizes?_append _ more hminimum).trans (Framing.measure_eq_some hmeasure).1
    case isFalse hover =>
      cases hbody : extendBody (i.framing.envelope sizes (held ++ first ++ more) i.remote)
        (held ++ first ++ more).toArray total ((window.drop first.length).drop more.length) with
      | error e =>
        rw [hbody] at h
        cases h
      | ok b =>
        rw [hbody] at h
        cases h
        obtain ⟨-, hcontained⟩ :=
          contained_of_extendBody (l := i.framing.layout) (Nat.le_of_not_lt hover) (by omega) hbody
        exact ⟨Nat.le_trans htaken (Nat.le_add_right _ _), hcontained⟩

/-- **A step goes on from what is contained to what is contained**, if the framing covers what it is told. -/
theorem goes_of_contained (hl : i.framing.layout.Answers) (hcovers : i.framing.Covers) (hne : window ≠ [])
    (h : pending.Contained i.framing.layout) :
    i.Goes pending fresh window
      ∧ ∀ advance, i.step pending fresh window = .ok advance → advance.pending.Contained i.framing.layout := by
  cases h with
  | idle =>
    refine ⟨⟨begin?_eq i fresh window, fun advance hstep => ?_⟩, fun advance hstep => ?_⟩
    · exact (contained_of_begin hl hcovers hne hstep).1
    · exact (contained_of_begin hl hcovers hne hstep).2
  | @header received nonempty short =>
    obtain ⟨held⟩ := received
    have hheld : (Pending.header held.toArray).Contained i.framing.layout := .header nonempty short
    refine ⟨⟨extendHeader?_eq fun first sizes total hfirst hmeasure => ?_, fun advance hstep => ?_⟩,
      fun advance hstep => ?_⟩
    · exact (length_le_of_contained hl hcovers hheld hfirst hmeasure).1
    · exact (contained_of_extendHeader hl hcovers hne hheld hstep).1
    · exact (contained_of_extendHeader hl hcovers hne hheld hstep).2
  | @body envelope received total whole short =>
    obtain ⟨held⟩ := received
    refine ⟨⟨extendBody?_eq envelope held window total (Nat.le_of_lt short) whole, fun advance hstep => ?_⟩,
      fun advance hstep => ?_⟩
    · exact (contained_of_extendBody (l := i.framing.layout) whole (Nat.le_of_lt short) hstep).1 short hne
    · exact (contained_of_extendBody whole (Nat.le_of_lt short) hstep).2

theorem contained_of_visits {next : Pending} {rest : Bytes} (hl : i.framing.layout.Answers)
    (hcovers : i.framing.Covers) (h : pending.Contained i.framing.layout)
    (hvisits : i.Visits pending window next fresh rest) : next.Contained i.framing.layout := by
  induction hvisits with
  | first => exact h
  | next before nonempty step ih => exact (goes_of_contained hl hcovers nonempty ih).2 _ step

theorem contained_of_runFrom (hl : i.framing.layout.Answers) (hcovers : i.framing.Covers)
    (h : pending.Contained i.framing.layout) (fresh : Bool) (window : Bytes) :
    (i.runFrom pending fresh window).pending.Contained i.framing.layout := by
  fun_induction runFrom i pending fresh window with
  | case1 => exact h
  | case2 => exact .idle
  | case3 => exact .idle
  | case4 pending fresh b bs n next events hstep later ih =>
    exact ih ((goes_of_contained hl hcovers (List.cons_ne_nil _ _) h).2 _ hstep)

theorem contained_of_reaches (hl : i.framing.layout.Answers) (hcovers : i.framing.Covers) (h : i.Reaches pending) :
    pending.Contained i.framing.layout := by
  induction h with
  | idle => exact .idle
  | receive before window ih =>
    unfold run
    split
    case h_1 => exact .idle
    case h_2 => exact contained_of_runFrom hl hcovers ih true window

theorem safe_of_covers (hl : i.framing.layout.Answers) (hcovers : i.framing.Covers) : i.Safe := by
  intro pending window next fresh rest hreaches hvisits hne
  have hnext := contained_of_visits hl hcovers (contained_of_reaches hl hcovers hreaches) hvisits
  exact (goes_of_contained hl hcovers hne hnext).1

/-! ### Layouts that do not -/

theorem begin_of_measure_zero (fresh : Bool) {sizes : Sizes}
    (hmeasure : i.framing.measure window = .ok (some (sizes, 0))) :
    ∃ pending events, i.begin fresh window = .ok ⟨0, pending, events⟩ := by
  have hoverhead : sizes.overhead.toNat = 0 := Nat.le_zero.mp (Framing.overhead_le_of_measure hmeasure)
  have hreach : reaches 0 window = true := (reaches_iff _ _).mpr (Nat.zero_le _)
  simp only [begin, hmeasure, hoverhead, hreach, Bool.not_true, Bool.false_eq_true, if_false, if_true]
  exact ⟨_, _, rfl⟩

theorem extendBody?_of_lt (envelope : Envelope) {received : Array UInt8} {total : Nat} (window : Bytes)
    (h : total < received.size) : extendBody? envelope received total window = none := by
  rw [extendBody?, minus?, if_neg (Nat.not_le_of_lt h)]
  rfl

/-- The rest of the bytes that tell the sizes is more than there is of the message. -/
theorem extendHeader?_of_lt {sizes : Sizes} {total : Nat}
    (hminimum : held.length + window.length = i.framing.layout.minimum)
    (hmeasure : i.framing.measure (held ++ window) = .ok (some (sizes, total)))
    (hlt : total < (held ++ window).length) :
    i.extendHeader? held.toArray window = none := by
  have hoverhead := Framing.overhead_le_of_measure hmeasure
  have hmissing : i.framing.layout.minimum - held.length = window.length := by omega
  have hbody (envelope : Envelope) : extendBody? envelope (held ++ window).toArray total [] = none :=
    extendBody?_of_lt envelope [] hlt
  have hfront : slice? (held ++ window) 0 sizes.overhead.toNat = some ((held ++ window).take sizes.overhead.toNat) :=
    slice?_front (by omega)
  have hsub : sizes.overhead.toNat - (held ++ window).length = 0 := by omega
  have hnot : ¬ (held ++ window).length < sizes.overhead.toNat := by omega
  rw [extendHeader?]
  simp only [List.size_toArray, Option.bind_eq_bind, missing?_eq, hmissing, Option.bind_some, Nat.min_self,
    slice?_front (Nat.le_refl window.length), List.take_length, appendList_toArray, hmeasure, hsub,
    minus?_eq (Nat.le_refl window.length), Nat.zero_min, Nat.add_zero,
    slice?_eq (Nat.le_refl window.length) (Nat.le_refl window.length), List.drop_length, List.append_nil,
    if_neg hnot, hfront, hbody, Option.bind_none]

theorem run_idle_of_short (hl : i.framing.layout.Answers) (hpartial : i.allowPartial = true) (hne : window ≠ [])
    (hshort : window.length < i.framing.layout.minimum) : (i.run .idle window).pending = .header window.toArray := by
  obtain ⟨b, bs, rfl⟩ := List.exists_cons_of_ne_nil hne
  have hstep : i.begin true (b :: bs) = .ok ⟨bs.length + 1, .header (b :: bs).toArray,
      [.progress ⟨none, (b :: bs).toArray.size, 0⟩]⟩ := by
    rw [begin, (Framing.measure_eq_none_iff_of_answers hl _).mpr hshort, hpartial]
    rfl
  simp only [run, runFrom, step, hstep, List.drop_length]

theorem covers_of_safe (hl : i.framing.layout.Answers) (hpartial : i.allowPartial = true) (h : i.Safe) :
    i.framing.Covers := by
  intro w sizes total hmeasure
  apply Nat.le_of_not_lt
  intro hlt
  have hsizes := (Framing.measure_eq_some hmeasure).1
  have hminimum : i.framing.layout.minimum ≤ w.length := by
    apply Nat.le_of_not_lt
    intro hshort
    rw [(hl.sizes?_eq_none_iff w).mpr hshort] at hsizes
    cases hsizes
  -- The bytes that tell the sizes, and nothing behind them.
  obtain ⟨front, hfront⟩ : ∃ front, w.take i.framing.layout.minimum = front := ⟨_, rfl⟩
  have hlength : front.length = i.framing.layout.minimum := by rw [← hfront, List.length_take_of_le hminimum]
  have hmeasureFront : i.framing.measure front = .ok (some (sizes, total)) := by
    rw [← hmeasure]
    apply Framing.measure_congr
    rw [← List.take_append_drop i.framing.layout.minimum w, hfront]
    exact (hl.sizes?_append front _ (Nat.le_of_eq hlength.symm)).symm
  have hpos := hl.minimum_pos
  cases total with
  | zero =>
    obtain ⟨pending, events, hbegin⟩ := begin_of_measure_zero true hmeasureFront
    have hne : front ≠ [] := List.length_pos_iff.mp (by omega)
    have hmoves := (h .idle front .idle true front .idle .first hne).moves _ hbegin
    exact absurd hmoves (Nat.not_succ_le_zero 0)
  | succ total =>
    -- A first receive of one byte, and a second of the others.
    cases front with
    | nil => exact absurd hlength (Nat.ne_of_lt hpos)
    | cons b rest =>
      rw [List.length_cons] at hlength
      have hkept : (i.run .idle [b]).pending = .header [b].toArray :=
        run_idle_of_short hl hpartial (List.cons_ne_nil _ _) (by rw [List.length_singleton]; omega)
      have hreaches : i.Reaches (.header [b].toArray) := hkept ▸ .receive .idle [b]
      have hne : rest ≠ [] := List.length_pos_iff.mp (by omega)
      have hnone : i.extendHeader? [b].toArray rest = none :=
        extendHeader?_of_lt (by rw [List.length_singleton]; omega) hmeasureFront
          (by rw [List.singleton_append, List.length_cons]; omega)
      have hinside : i.extendHeader? [b].toArray rest = some _ :=
        (h _ rest _ true rest hreaches .first hne).inside
      rw [hnone] at hinside
      cases hinside

/-- **What framing asks of a layout.** Every step is safe exactly if no message is allowed that is shorter than the
bytes that tell its size. -/
theorem safe_iff_covers (hl : i.framing.layout.Answers) (hpartial : i.allowPartial = true) :
    i.Safe ↔ i.framing.Covers :=
  ⟨covers_of_safe hl hpartial, safe_of_covers hl⟩

end Intake

/-! ### Layouts that tell the same sizes of every message -/

/-- The layout of messages that all have the same sizes. -/
def Layout.uniform (minimum : Nat) (sizes : Sizes) : Layout where
  minimum := minimum
  sizes? window := if reaches minimum window then some sizes else none
  check _ := sizes.check
  routing envelope := envelope.drop minimum
  encode _ _ := .ok (List.replicate sizes.overhead.toNat 0)

theorem Layout.sizes?_uniform (minimum : Nat) (sizes : Sizes) (w : Bytes) :
    (uniform minimum sizes).sizes? w = if minimum ≤ w.length then some sizes else none := by
  simp only [uniform, reaches_iff]

theorem Layout.answers_uniform {minimum : Nat} (sizes : Sizes) (hpos : 0 < minimum) :
    (uniform minimum sizes).Answers where
  minimum_pos := hpos
  sizes?_eq_none_iff w := by
    show _ ↔ w.length < minimum
    rw [sizes?_uniform]
    split
    case isTrue h => simp only [reduceCtorEq, Nat.not_lt_of_le h]
    case isFalse h => simp only [Nat.lt_of_not_le h]
  sizes?_append w more h := by
    have hle : minimum ≤ w.length := h
    have hle' : minimum ≤ (w ++ more).length := Nat.le_trans hle (List.length_append ▸ Nat.le_add_right _ _)
    rw [sizes?_uniform, sizes?_uniform, if_pos hle, if_pos hle']

/-- Messages that are all of one size are safe to take in exactly if that is no less than the bytes that tell it. -/
theorem Intake.safe_uniform_iff {minimum ceiling : Nat} {sizes : Sizes} (remote : String) (hpos : 0 < minimum)
    (hlt : sizes.total < 0x100000000) (hle : sizes.total ≤ ceiling) :
    (Intake.mk ⟨.uniform minimum sizes, ceiling⟩ remote true).Safe ↔ minimum ≤ sizes.total := by
  rw [safe_iff_covers (Layout.answers_uniform sizes hpos) rfl]
  constructor
  · intro hcovers
    refine hcovers (List.replicate minimum 0) sizes sizes.total (Framing.measure_of_sizes? ?_ rfl hlt hle)
    rw [Layout.sizes?_uniform, if_pos (Nat.le_of_eq List.length_replicate.symm)]
  · intro hminimum w found total hmeasure
    obtain ⟨hfound, rfl, -⟩ := Framing.measure_eq_some hmeasure
    rw [Layout.sizes?_uniform, Option.ite_none_right_eq_some] at hfound
    obtain ⟨-, hfound⟩ := hfound
    cases hfound
    exact hminimum

/-- Telling the sizes is not enough: with messages of one byte that two bytes tell, more may be kept than there is. -/
theorem Intake.not_safe_of_answers :
    ¬ ∀ (l : Layout) (ceiling : Nat) (remote : String), l.Answers →
      (Intake.mk ⟨l, ceiling⟩ remote true).Safe := by
  intro h
  have hsafe := h (.uniform 2 ⟨0, 0, 1⟩) 1 "peer" (Layout.answers_uniform _ (by decide))
  rw [safe_uniform_iff "peer" (by decide) (by decide) (by decide)] at hsafe
  exact absurd hsafe (by decide)

end MessageWire
