import MessageWire.Proofs.Value.Members
import MessageWire.Proofs.Value.Slots
/-!
# Filling a buffer

A buffer is filled by one read after the other, each behind what the reads before it brought and only while there is
room (`Source.Reads`). What such a loop answers is decided by the first of three things that happens: the buffer is
full, a read finds nothing, or a read fails and not because it was interrupted (`Source.fillBuffer_exact`). All reads
before that left the loop going (`Source.Undisturbed`).
-/

namespace MessageWire

namespace Source

variable {s s' s'' : Source} {room want n : Nat} {answer : Except IoError Bytes}
  {answers later : List (Except IoError Bytes)} {buffer : Bytes}

/-! ### Reads behind one another -/

def brought : Except IoError Bytes → Bytes
  | .ok data => data
  | .error _ => []

/-- The bytes that reads brought, one behind the other. -/
def received (answers : List (Except IoError Bytes)) : Bytes := answers.flatMap brought

/-- Reads into `room` bytes of room, each behind what those before it brought, as long as there is room. `answers` is
what they found, in order. -/
inductive Reads : Source → Nat → List (Except IoError Bytes) → Source → Prop
  | none (s : Source) (room : Nat) : Reads s room [] s
  | read {s s' s'' : Source} {room : Nat} {answer : Except IoError Bytes} {answers : List (Except IoError Bytes)}
      (more : 0 < room) (first : s.read room = (answer, s'))
      (later : Reads s' (room - (brought answer).length) answers s'') : Reads s room (answer :: answers) s''

/-- Reads that a loop goes on behind: each of them brought something or was interrupted. -/
def Undisturbed (answers : List (Except IoError Bytes)) : Prop :=
  ∀ answer ∈ answers, answer = .error .interrupted ∨ brought answer ≠ []

theorem undisturbed_cons :
    Undisturbed (answer :: answers) ↔ (answer = .error .interrupted ∨ brought answer ≠ [])
      ∧ Undisturbed answers :=
  List.forall_mem_cons

theorem received_cons (answer : Except IoError Bytes) (answers : List (Except IoError Bytes)) :
    received (answer :: answers) = brought answer ++ received answers := List.flatMap_cons

theorem length_received_cons (answer : Except IoError Bytes) (answers : List (Except IoError Bytes)) :
    (received (answer :: answers)).length = (brought answer).length + (received answers).length := by
  rw [received_cons, List.length_append]

theorem length_brought_le (h : s.read room = (answer, s')) : (brought answer).length ≤ room := by
  cases answer with
  | error e => exact Nat.zero_le _
  | ok data => exact (read_ok_left h).2

theorem Reads.append (h : s.Reads room answers s')
    (hlater : s'.Reads (room - (received answers).length) later s'') : s.Reads room (answers ++ later) s'' := by
  induction h with
  | none s room => exact hlater
  | read more first _ ih =>
    rw [length_received_cons, ← Nat.sub_sub] at hlater
    exact .read more first (ih hlater)

/-! ### A fill, read by read -/

theorem fill_zero (s : Source) : s.fill 0 = ⟨[], none, s⟩ := by
  rw [fill, dif_pos rfl]

theorem fill_of_interrupted (hpos : 0 < want) (h : s.read want = (.error .interrupted, s')) :
    s.fill want = s'.fill want := by
  rw [fill, dif_neg (Nat.ne_of_gt hpos)]
  split <;> simp_all

theorem fill_of_failed {e : IoError} (hpos : 0 < want) (he : e ≠ .interrupted) (h : s.read want = (.error e, s')) :
    s.fill want = ⟨[], some e, s'⟩ := by
  rw [fill, dif_neg (Nat.ne_of_gt hpos)]
  split <;> simp_all

theorem fill_of_nothing (hpos : 0 < want) (h : s.read want = (.ok [], s')) : s.fill want = ⟨[], none, s'⟩ := by
  rw [fill, dif_neg (Nat.ne_of_gt hpos)]
  split <;> simp_all

theorem fill_of_data {data : Bytes} (hpos : 0 < want) (hne : data ≠ []) (h : s.read want = (.ok data, s')) :
    s.fill want =
      let rest := s'.fill (want - data.length)
      ⟨data ++ rest.bytes, rest.error?, rest.source⟩ := by
  obtain ⟨b, bs, rfl⟩ := List.exists_cons_of_ne_nil hne
  rw [fill, dif_neg (Nat.ne_of_gt hpos)]
  split <;> simp_all

theorem Reads.fill_eq (h : s.Reads want answers s') (hgoes : Undisturbed answers) :
    s.fill want =
      let rest := s'.fill (want - (received answers).length)
      ⟨received answers ++ rest.bytes, rest.error?, rest.source⟩ := by
  induction h with
  | none s room => rfl
  | @read s s₁ s' room answer answers more first _ ih =>
    obtain ⟨hfirst, hlater⟩ := undisturbed_cons.mp hgoes
    have hrest := ih hlater
    rw [length_received_cons, received_cons, ← Nat.sub_sub]
    obtain rfl | hne := hfirst
    · exact (fill_of_interrupted more first).trans hrest
    · cases answer with
      | error e => exact absurd rfl hne
      | ok data =>
        rw [fill_of_data more hne first]
        simp only [brought] at hrest ⊢
        rw [hrest]
        simp only [List.append_assoc]

theorem Reads.length_received_le (h : s.Reads room answers s') : (received answers).length ≤ room := by
  induction h with
  | none s room => exact Nat.zero_le _
  | read more first _ ih =>
    have hfirst := length_brought_le first
    rw [length_received_cons]
    omega

theorem Reads.lt_room (h : s.Reads room answers s') {front : List (Except IoError Bytes)}
    (hanswers : answers = front ++ answer :: later) : (received front).length < room := by
  induction front generalizing s room answers with
  | nil =>
    subst hanswers
    cases h with
    | read more _ _ => exact more
  | cons first front ih =>
    subst hanswers
    cases h with
    | read _ _ hrest =>
      have hlt := ih hrest rfl
      rw [length_received_cons]
      omega

/-! ### The loop -/

/-- What a loop of reads into a buffer comes to: its answer, the buffer, the source, and what each read found. -/
structure Filled where
  result : Except IoError Nat
  buffer : Bytes
  source : Source
  answers : List (Except IoError Bytes)

/-- Reads into `buffer` behind its first `filled` bytes until it is full or a read finds nothing. -/
def fillBuffer (s : Source) (buffer : Bytes) (filled : Nat) : Filled :=
  if filled < buffer.length then
    match _hread : s.read (buffer.length - filled) with
    | (.error .interrupted, s') =>
      let later := s'.fillBuffer buffer filled
      { later with answers := .error .interrupted :: later.answers }
    | (.error e, s') => ⟨.error e, buffer, s', [.error e]⟩
    | (.ok [], s') => ⟨.ok filled, buffer, s', [.ok []]⟩
    | (.ok (b :: bs), s') =>
      let later := s'.fillBuffer (overwrite buffer filled (b :: bs)) (filled + (bs.length + 1))
      { later with answers := .ok (b :: bs) :: later.answers }
  else ⟨.ok filled, buffer, s, []⟩
termination_by s.budget
decreasing_by
  all_goals
    have hbudget := s.read_budget (buffer.length - filled)
    rw [_hread] at hbudget
    simpa using hbudget

/-- How a loop ends that has read `n` bytes and has `room` left: with a last read, unless there is no room for it. -/
inductive Ends (s : Source) :
    (room n : Nat) → List (Except IoError Bytes) → Except IoError Nat → Source → Prop
  | full (n : Nat) : Ends s 0 n [] (.ok n) s
  | nothing {room n : Nat} {s' : Source} (more : 0 < room) (found : s.read room = (.ok [], s')) :
      Ends s room n [.ok []] (.ok n) s'
  | failed {room n : Nat} {e : IoError} {s' : Source} (more : 0 < room) (fatal : e ≠ .interrupted)
      (found : s.read room = (.error e, s')) : Ends s room n [.error e] (.error e) s'

theorem Ends.reads {result : Except IoError Nat} (h : s.Ends room n answers result s') : s.Reads room answers s' := by
  cases h with
  | full => exact .none _ _
  | nothing more found => exact .read more found (.none _ _)
  | failed more _ found => exact .read more found (.none _ _)

theorem Ends.fill_eq {result : Except IoError Nat} (h : s.Ends room n answers result s') :
    (s.fill room).bytes = [] ∧ (s.fill room).source = s' ∧ result = (s.fill room).error?.elim (.ok n) .error := by
  cases h with
  | full =>
    rw [fill_zero]
    exact ⟨rfl, rfl, rfl⟩
  | nothing more found =>
    rw [fill_of_nothing more found]
    exact ⟨rfl, rfl, rfl⟩
  | failed more fatal found =>
    rw [fill_of_failed more fatal found]
    exact ⟨rfl, rfl, rfl⟩

/-- The reads of a loop: those that left it going, what they stored, and how it ended behind them. -/
theorem exists_reads (s : Source) {filled : Nat} (hle : filled ≤ buffer.length) :
    let got := s.fillBuffer buffer filled
    ∃ front last s', got.answers = front ++ last ∧ s.Reads (buffer.length - filled) front s' ∧ Undisturbed front
      ∧ got.buffer = overwrite buffer filled (received front)
      ∧ s'.Ends (buffer.length - filled - (received front).length) (filled + (received front).length) last got.result
        got.source := by
  -- Reads that leave the loop going come in front of those of the rest; the other cases end it.
  fun_induction fillBuffer s buffer filled with
  | case1 s buffer filled hless s' hread rest ih =>
    obtain ⟨front, last, s₁, hanswers, hreads, hgoes, hbuffer, hends⟩ := ih hle
    refine ⟨.error .interrupted :: front, last, s₁, congrArg _ hanswers, .read (by omega) hread hreads,
      undisturbed_cons.mpr ⟨.inl rfl, hgoes⟩, hbuffer, ?_⟩
    rw [length_received_cons, ← Nat.sub_sub, ← Nat.add_assoc]
    exact hends
  | case2 s buffer filled hless e s' he hread =>
    have hmore : 0 < buffer.length - filled := by omega
    exact ⟨[], [.error e], s, rfl, .none _ _, List.forall_mem_nil _, (overwrite_nil _ _).symm,
      .failed hmore he hread⟩
  | case3 s buffer filled hless s' hread =>
    have hmore : 0 < buffer.length - filled := by omega
    exact ⟨[], [.ok []], s, rfl, .none _ _, List.forall_mem_nil _, (overwrite_nil _ _).symm, .nothing hmore hread⟩
  | case4 s buffer filled hless b bs s' hread rest ih =>
    have hroom : bs.length + 1 ≤ buffer.length - filled := (read_ok_left hread).2
    have hlen : (overwrite buffer filled (b :: bs)).length = buffer.length :=
      length_overwrite (by rw [List.length_cons]; omega)
    rw [hlen, ← Nat.sub_sub] at ih
    obtain ⟨front, last, s₁, hanswers, hreads, hgoes, hbuffer, hends⟩ := ih (by omega)
    refine ⟨.ok (b :: bs) :: front, last, s₁, congrArg _ hanswers, .read (by omega) hread hreads,
      undisturbed_cons.mpr ⟨.inr (List.cons_ne_nil b bs), hgoes⟩, ?_, ?_⟩
    · exact hbuffer.trans (overwrite_overwrite hle (b :: bs) (received front))
    · rw [length_received_cons, ← Nat.sub_sub, ← Nat.add_assoc]
      exact hends
  | case5 s buffer filled hfull =>
    obtain rfl : filled = buffer.length := by omega
    refine ⟨[], [], s, rfl, .none _ _, List.forall_mem_nil _, (overwrite_nil _ _).symm, ?_⟩
    rw [Nat.sub_self]
    exact .full _

/-- A loop into a buffer stores what `fill` collects behind the bytes that are there. -/
theorem fillBuffer_eq (s : Source) {filled : Nat} (hle : filled ≤ buffer.length) :
    let got := s.fillBuffer buffer filled
    let collected := s.fill (buffer.length - filled)
    got.result = (collected.error?.elim (.ok (filled + collected.bytes.length)) .error)
      ∧ got.buffer = overwrite buffer filled collected.bytes ∧ got.source = collected.source := by
  obtain ⟨front, last, s', -, hreads, hgoes, hbuffer, hends⟩ := s.exists_reads hle
  obtain ⟨hnothing, hsource, hresult⟩ := hends.fill_eq
  simp only [hreads.fill_eq hgoes, hnothing, List.append_nil]
  exact ⟨hresult, hbuffer, hsource.symm⟩

/-! ### What decides -/

theorem result_fillBuffer_of_reads (h : s.Reads buffer.length answers s') (hgoes : Undisturbed answers) :
    let rest := s'.fill (buffer.length - (received answers).length)
    (s.fillBuffer buffer 0).result
      = rest.error?.elim (.ok ((received answers).length + rest.bytes.length)) .error := by
  obtain ⟨hresult, -, -⟩ := s.fillBuffer_eq (Nat.zero_le buffer.length)
  rw [Nat.sub_zero, h.fill_eq hgoes, List.length_append, Nat.zero_add] at hresult
  exact hresult

/-- A loop answers a number if it has read that many bytes undisturbed and has no room for more, or nothing comes. -/
theorem fillBuffer_eq_ok_iff (s : Source) (buffer : Bytes) (n : Nat) :
    (s.fillBuffer buffer 0).result = .ok n ↔
      ∃ answers s', s.Reads buffer.length answers s' ∧ Undisturbed answers ∧ (received answers).length = n
        ∧ (n = buffer.length ∨ (s'.read (buffer.length - n)).1 = .ok []) := by
  constructor
  · intro hok
    obtain ⟨front, last, s', -, hreads, hgoes, -, hends⟩ := s.exists_reads (Nat.zero_le buffer.length)
    rw [Nat.sub_zero, Nat.zero_add, hok] at hends
    rw [Nat.sub_zero] at hreads
    have hle := hreads.length_received_le
    refine ⟨front, s', hreads, hgoes, ?_⟩
    generalize hroom : buffer.length - (received front).length = room at hends
    generalize (received front).length = count at hends hroom hle ⊢
    generalize (s.fillBuffer buffer 0).source = source at hends
    cases hends with
    | full => exact ⟨rfl, .inl (by omega)⟩
    | nothing more found => exact ⟨rfl, .inr (by rw [hroom, found])⟩
  · rintro ⟨answers, s', hreads, hgoes, rfl, hstop⟩
    rw [result_fillBuffer_of_reads hreads hgoes]
    rcases Nat.eq_zero_or_pos (buffer.length - (received answers).length) with hfull | hmore
    · rw [hfull, fill_zero]
      rfl
    · have hnothing := hstop.resolve_left (by omega)
      rw [fill_of_nothing hmore (Prod.ext hnothing rfl)]
      rfl

/-- A loop fails if a read does, before which it was undisturbed and had room, unless the read is made again. -/
theorem fillBuffer_eq_error_iff (s : Source) (buffer : Bytes) (e : IoError) :
    (s.fillBuffer buffer 0).result = .error e ↔
      e ≠ .interrupted ∧ ∃ answers s', s.Reads buffer.length answers s' ∧ Undisturbed answers
        ∧ (received answers).length < buffer.length
        ∧ (s'.read (buffer.length - (received answers).length)).1 = .error e := by
  constructor
  · intro herror
    obtain ⟨front, last, s', -, hreads, hgoes, -, hends⟩ := s.exists_reads (Nat.zero_le buffer.length)
    rw [Nat.sub_zero, herror] at hends
    rw [Nat.sub_zero] at hreads
    generalize hroom : buffer.length - (received front).length = room at hends
    generalize (s.fillBuffer buffer 0).source = source at hends
    cases hends with
    | failed more fatal found => exact ⟨fatal, front, s', hreads, hgoes, by omega, by rw [hroom, found]⟩
  · rintro ⟨hfatal, answers, s', hreads, hgoes, hless, hfailed⟩
    rw [result_fillBuffer_of_reads hreads hgoes, fill_of_failed (by omega) hfatal (Prod.ext hfailed rfl)]
    rfl

/-- Whatever ends a loop, the front of the buffer holds the bytes that the stream gave, and the rest is as it was. -/
theorem buffer_fillBuffer (s : Source) (buffer : Bytes) :
    let got := s.fillBuffer buffer 0
    ∃ n, n ≤ buffer.length ∧ n ≤ s.left.length ∧ got.buffer = s.left.take n ++ buffer.drop n
      ∧ got.source.left = s.left.drop n ∧ ∀ m, got.result = .ok m → m = n := by
  obtain ⟨hresult, hbuffer, hsource⟩ := s.fillBuffer_eq (Nat.zero_le buffer.length)
  rw [Nat.sub_zero] at hresult hbuffer hsource
  obtain ⟨hleft, hlen⟩ := s.fill_left buffer.length
  have hfront : s.left.take (s.fill buffer.length).bytes.length = (s.fill buffer.length).bytes := by
    rw [← hleft, List.take_left]
  have hrest : s.left.drop (s.fill buffer.length).bytes.length = (s.fill buffer.length).source.left := by
    rw [← hleft, List.drop_left]
  refine ⟨(s.fill buffer.length).bytes.length, hlen, ?_, ?_, ?_, fun m hm => ?_⟩
  · rw [← hleft, List.length_append]
    exact Nat.le_add_right _ _
  · rw [hbuffer, hfront, overwrite, List.take_zero, List.nil_append, Nat.zero_add]
  · rw [hsource, hrest]
  · rw [hresult, Nat.zero_add] at hm
    cases herror : (s.fill buffer.length).error? with
    | some e =>
      rw [herror] at hm
      cases hm
    | none =>
      rw [herror] at hm
      cases hm
      rfl

theorem le_of_fillBuffer_eq_ok (h : (s.fillBuffer buffer 0).result = .ok n) : n ≤ buffer.length := by
  obtain ⟨m, hm, -, -, -, hresult⟩ := s.buffer_fillBuffer buffer
  rw [hresult n h]
  exact hm

/-! ### Whole buffers -/

/-- To take a number of bytes is to fill a buffer of that length. -/
theorem takeExactly_eq (s : Source) (buffer : Bytes) :
    let got := s.fillBuffer buffer 0
    let room := buffer.length
    s.takeExactly room =
      (match got.result with
        | .error e => .error (.io e)
        | .ok n => if n < room then .error (.truncatedStream room n n) else .ok got.buffer,
      got.source) := by
  obtain ⟨hresult, hbuffer, hsource⟩ := s.fillBuffer_eq (Nat.zero_le buffer.length)
  rw [Nat.sub_zero] at hresult hbuffer hsource
  obtain ⟨-, hlen⟩ := s.fill_left buffer.length
  simp only [takeExactly]
  rw [hresult, hbuffer, hsource]
  generalize s.fill buffer.length = collected at hlen ⊢
  obtain ⟨bytes, _ | e, source⟩ := collected
  · simp only [Option.elim, Nat.zero_add]
    split
    case isTrue hshort => rfl
    case isFalse hall =>
      rw [overwrite_all (Nat.le_antisymm hlen (Nat.le_of_not_lt hall))]
  · rfl

theorem takeExactly_of_filled (h : (s.fillBuffer buffer 0).result = .ok n) :
    (s.takeExactly buffer.length).1 =
      if n < buffer.length then .error (.truncatedStream buffer.length n n)
      else .ok (s.fillBuffer buffer 0).buffer := by
  rw [takeExactly_eq, h]

theorem takeExactly_of_failed {e : IoError} (h : (s.fillBuffer buffer 0).result = .error e) :
    (s.takeExactly buffer.length).1 = .error (.io e) := by
  rw [takeExactly_eq, h]

theorem takeExactly_eq_ok_iff (s : Source) (buffer data : Bytes) :
    let got := s.fillBuffer buffer 0
    (s.takeExactly buffer.length).1 = .ok data ↔ got.result = .ok buffer.length ∧ data = got.buffer := by
  intro got
  cases hresult : got.result with
  | error e =>
    rw [takeExactly_of_failed hresult]
    simp
  | ok n =>
    have hle := le_of_fillBuffer_eq_ok hresult
    rw [takeExactly_of_filled hresult]
    split
    case isTrue hless => simp [Nat.ne_of_lt hless]
    case isFalse hfull =>
      obtain rfl : n = buffer.length := by omega
      simp [eq_comm, got]

/-- **A buffer is filled with what the stream gives, until it is full or nothing comes.** It fails exactly if a read
does so before that. -/
theorem fillBuffer_exact (s : Source) (buffer : Bytes) :
    let room := buffer.length
    let got := s.fillBuffer buffer 0
    let collected := s.fill room
    let taken := s.takeExactly room
    s.Reads room got.answers got.source
      ∧ (∀ front answer later, got.answers = front ++ answer :: later → (received front).length < room)
      ∧ (∀ n, got.result = .ok n ↔
        ∃ answers s', s.Reads room answers s' ∧ Undisturbed answers ∧ (received answers).length = n
          ∧ (n = room ∨ (s'.read (room - n)).1 = .ok []))
      ∧ (∀ e, got.result = .error e ↔
        e ≠ .interrupted ∧ ∃ answers s', s.Reads room answers s' ∧ Undisturbed answers
          ∧ (received answers).length < room ∧ (s'.read (room - (received answers).length)).1 = .error e)
      ∧ (∃ n, n ≤ room ∧ n ≤ s.left.length ∧ got.buffer = s.left.take n ++ buffer.drop n
        ∧ got.source.left = s.left.drop n ∧ ∀ m, got.result = .ok m → m = n)
      ∧ (got.result = collected.error?.elim (.ok collected.bytes.length) .error
        ∧ got.buffer = overwrite buffer 0 collected.bytes ∧ got.source = collected.source)
      ∧ (∀ data, taken.1 = .ok data ↔ got.result = .ok room ∧ data = got.buffer)
      ∧ (∀ n, got.result = .ok n → n ≠ room → taken.1 = .error (.truncatedStream room n n))
      ∧ (∀ e, got.result = .error e → taken.1 = .error (.io e))
      ∧ taken.2 = got.source := by
  intro room got collected taken
  obtain ⟨front, last, s', hanswers, hreads, -, -, hends⟩ := s.exists_reads (Nat.zero_le room)
  have hall : s.Reads room got.answers got.source := by
    rw [hanswers]
    exact hreads.append hends.reads
  have hfill := s.fillBuffer_eq (Nat.zero_le room)
  simp only [Nat.sub_zero, Nat.zero_add] at hfill
  refine ⟨hall, fun front answer later => hall.lt_room, s.fillBuffer_eq_ok_iff buffer,
    s.fillBuffer_eq_error_iff buffer,
    s.buffer_fillBuffer buffer, hfill, s.takeExactly_eq_ok_iff buffer, fun n hn hshort => ?_,
    fun e => takeExactly_of_failed, congrArg Prod.snd (s.takeExactly_eq buffer)⟩
  have hle := le_of_fillBuffer_eq_ok hn
  exact (takeExactly_of_filled hn).trans (if_pos (Nat.lt_of_le_of_ne hle hshort))

/-- Two bytes, a failure, and more behind it: into a buffer for two, where the failure is not met, and into a larger
one. -/
theorem fillBuffer_exact_of_two_bytes :
    let broken : Source := ⟨[1, 2, 3], [.fail .interrupted, .give 2, .fail .brokenPipe]⟩
    let short : Source := ⟨[1, 2], [.give 1]⟩
    (broken.fillBuffer [9, 9] 0).answers = [.error .interrupted, .ok [1, 2]]
      ∧ (broken.takeExactly 2).1 = .ok [1, 2]
      ∧ (broken.takeExactly 3).1 = .error (.io .brokenPipe)
      ∧ (short.takeExactly 3).1 = .error (.truncatedStream 3 2 2) := by
  intro broken short
  obtain ⟨-, -, -, -, -, -, hwhole, -⟩ := broken.fillBuffer_exact [9, 9]
  obtain ⟨-, -, -, -, -, -, -, -, hfailed, -⟩ := broken.fillBuffer_exact [9, 9, 9]
  obtain ⟨-, -, -, -, -, -, -, hshort, -⟩ := short.fillBuffer_exact [9, 9, 9]
  have htwo : (broken.fillBuffer [9, 9] 0).result = .ok 2 ∧ [1, 2] = (broken.fillBuffer [9, 9] 0).buffer := by
    decide +kernel
  exact ⟨by decide +kernel, (hwhole [1, 2]).mpr htwo, hfailed .brokenPipe (by decide +kernel),
    hshort 2 (by decide +kernel) (by decide)⟩

end Source

end MessageWire
