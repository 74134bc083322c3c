import MessageWire.Proofs.Framing.Chunking
import MessageWire.Proofs.Streams
import MessageWire.Message.Receiver
/-!
# Reading messages from a stream

A receiver that is asked again and again answers with the messages that the decoder takes off the bytes of its
stream, and then with what ends them (`Framing.ending`). Reads that fail for good are answered at once, one by
one, and change nothing else (`Receiver.answers_eq_decodeAll`).
-/

namespace MessageWire

/-- What comes behind the messages of a stream: the decoder's error, or else what the end of the stream means
for the bytes that are left. -/
def Framing.ending (f : Framing) (remote : String) (u : Framing.Unframed) : MessageError :=
  match u.error? with
  | some e => e
  | none =>
    if u.rest = [] then .closed
    else
      match f.readEnvelope u.rest remote with
      | .ok (some e) => .incomplete u.rest.length (e.sizes.overhead.toNat + e.sizes.payload.toNat)
      | _ => .incomplete u.rest.length 0

theorem Framing.measure_ne_io {f : Framing} {w : Bytes} (cause : IoError) :
    f.measure w ≠ .error (.io cause) := by
  intro h
  obtain ⟨_, _, _, herror⟩ | ⟨_, _, herror⟩ | ⟨_, herror⟩ := measure_eq_error h
  all_goals cases herror

namespace Receiver

variable {r : Receiver} {source : Source} {capacity : Nat}

/-- The first `n` answers of a receiver, and the receiver afterwards. -/
def answers (r : Receiver) : Nat → List (Except MessageError Message) × Receiver
  | 0 => ([], r)
  | n + 1 =>
    let (answer, r') := r.next
    let (later, r'') := r'.answers n
    (answer :: later, r'')

/-- The failed read that an answer tells of, if it does. -/
def ioError? : Except MessageError Message → Option IoError
  | .error (.io e) => some e
  | _ => none

/-! ### Single answers -/

theorem next_of_ready {m : Message} {rest : List Message} (h : r.ready = m :: rest) :
    r.next = (.ok m, { r with ready := rest }) := by
  rw [next, prepare, h]

theorem next_of_deferred {e : MessageError} (hready : r.ready = []) (h : r.deferred? = some e) :
    r.next = (.error e, { r with deferred? := none }) := by
  rw [next, prepare, hready, h]

theorem prepare_eq_ok {scratch : Scratch} (hready : r.ready = []) (hdeferred : r.deferred? = none)
    (hstorage : r.assembler.storage = .ready scratch) : r.prepare = .ok scratch.capacity := by
  rw [prepare, hready, hdeferred]
  simp [Assembler.scratch, hstorage]

theorem next_of_interrupted (hprepare : r.prepare = .ok capacity)
    (hread : r.source.read capacity = (.error .interrupted, source)) : r.next = next { r with source } := by
  rw [next, hprepare]
  simp only
  split <;> simp_all

theorem next_of_io (hprepare : r.prepare = .ok capacity) {e : IoError} (he : e ≠ .interrupted)
    (hread : r.source.read capacity = (.error e, source)) : r.next = (.error (.io e), { r with source }) := by
  rw [next, hprepare]
  simp only
  split <;> simp_all

theorem next_of_end (hprepare : r.prepare = .ok capacity) (hread : r.source.read capacity = (.ok [], source)) :
    r.next = (.error (finish { r with source }).1, (finish { r with source }).2) := by
  rw [next, hprepare]
  simp only
  split <;> simp_all

theorem next_of_data (hprepare : r.prepare = .ok capacity) {data : Bytes} (hne : data ≠ [])
    (hread : r.source.read capacity = (.ok data, source)) : r.next = next (r.take data source) := by
  obtain ⟨b, bs, rfl⟩ := List.exists_cons_of_ne_nil hne
  rw [next, hprepare]
  simp only
  split <;> simp_all

/-- What a receiver keeps as it reads on shows in its answer. -/
theorem next_induction {motive : Receiver → Prop} {shown : Except MessageError Message × Receiver → Prop}
    (answered : ∀ r answer, r.prepare = .error answer → motive r → shown answer)
    (failed : ∀ r e, motive r → shown (.error (.io e), r))
    (ended : ∀ r, motive r → shown (.error r.finish.1, r.finish.2))
    (reading : ∀ r source, motive r → motive { r with source })
    (taking : ∀ r data source, motive r → motive (r.take data source)) (r : Receiver) (h : motive r) :
    shown r.next := by
  fun_induction next r with
  | case1 r answer hprepare => exact answered r answer hprepare h
  | case2 r capacity hprepare source hread ih => exact ih (reading r source h)
  | case3 r capacity hprepare e source hread hne => exact failed _ e (reading r source h)
  | case4 r capacity hprepare source hread e r' hfinish =>
    have hended := ended _ (reading r source h)
    rw [hfinish] at hended
    exact hended
  | case5 r capacity hprepare b bs source hread ih => exact ih (taking r (b :: bs) source h)

/-! ### Courses of answers -/

/-- Answers, one at least, that lead from `r` to `last`, take `used` and `delivered` off the stream and tell of each
failed read once. -/
structure Course (r last : Receiver) (used : List Step) (delivered : Bytes)
    (results : List (Except MessageError Message)) : Prop where
  answers : ∃ n told, r.answers (n + 1) = (told, last) ∧
    told.filterMap ioError? = (Step.failures used).filter (· ≠ .interrupted) ∧
    told.filter (fun answer => (ioError? answer).isNone) = results
  plan : r.source.plan = used ++ last.source.plan
  left : r.source.left = delivered ++ last.source.left

variable {r' last : Receiver} {used before : List Step} {delivered data : Bytes}
  {results : List (Except MessageError Message)}

theorem Course.of_end {answer : Except MessageError Message} (hnext : r.next = (answer, last))
    (hanswer : ioError? answer = none) (hplan : r.source.plan = before ++ last.source.plan)
    (hbefore : (Step.failures before).filter (· ≠ .interrupted) = [])
    (hleft : r.source.left = last.source.left) :
    Course r last before [] [answer] where
  answers := by
    refine ⟨0, [answer], by simp [Receiver.answers, hnext], ?_, by simp [hanswer]⟩
    rw [hbefore]
    simp [hanswer]
  plan := hplan
  left := hleft

theorem Course.of_next_eq (h : Course r' last used delivered results) (hnext : r.next = r'.next)
    (hplan : r.source.plan = before ++ r'.source.plan)
    (hbefore : (Step.failures before).filter (· ≠ .interrupted) = [])
    (hleft : r.source.left = data ++ r'.source.left) :
    Course r last (before ++ used) (data ++ delivered) results where
  answers := by
    obtain ⟨n, told, hanswers, hfailures, hresults⟩ := h.answers
    refine ⟨n, told, ?_, ?_, hresults⟩
    · rw [← hanswers, Receiver.answers, Receiver.answers, hnext]
    · rw [Step.failures_append, List.filter_append, hbefore, List.nil_append, hfailures]
  plan := by rw [hplan, h.plan, List.append_assoc]
  left := by rw [hleft, h.left, List.append_assoc]

theorem Course.of_io (h : Course r' last used delivered results) {e : IoError} (he : e ≠ .interrupted)
    (hnext : r.next = (.error (.io e), r')) (hplan : r.source.plan = before ++ r'.source.plan)
    (hbefore : Step.failures before = [e]) (hleft : r.source.left = r'.source.left) :
    Course r last (before ++ used) delivered results where
  answers := by
    obtain ⟨n, told, hanswers, hfailures, hresults⟩ := h.answers
    refine ⟨n + 1, .error (.io e) :: told, ?_, ?_, ?_⟩
    · rw [Receiver.answers, hnext]
      simp only [hanswers]
    · rw [Step.failures_append, List.filter_append, hbefore, ← hfailures]
      simp [ioError?, he]
    · rw [← hresults]
      simp [ioError?]
  plan := by rw [hplan, h.plan, List.append_assoc]
  left := by rw [hleft, h.left]

theorem Course.of_ready (h : Course { r with ready := [] } last used delivered results) {ms : List Message}
    (hready : r.ready = ms) : Course r last used delivered (ms.map .ok ++ results) := by
  induction ms generalizing r with
  | nil =>
    rw [← hready] at h
    exact h
  | cons m rest ih =>
    have hlater : Course { r with ready := rest } last used delivered (rest.map .ok ++ results) := ih h rfl
    obtain ⟨n, told, hanswers, hfailures, hresults⟩ := hlater.answers
    refine ⟨⟨n + 1, .ok m :: told, ?_, ?_, ?_⟩, hlater.plan, hlater.left⟩
    · rw [Receiver.answers, next_of_ready hready]
      simp only [hanswers]
    · rw [List.filterMap_cons_none rfl, hfailures]
    · rw [List.filter_cons_of_pos rfl, hresults]
      rfl

/-! ### All answers -/

/-- The receiver has nothing to hand out, and `held` has come since the last message. -/
structure Waiting (r : Receiver) (capacity : Nat) (held : Bytes) : Prop where
  ready : r.ready = []
  deferred : r.deferred? = none
  assembler : r.assembler.Holding capacity held
  giving : r.source.Giving

variable {held : Bytes}

theorem Waiting.prepare (h : r.Waiting capacity held) : r.prepare = .ok capacity := by
  obtain ⟨scratch, hstorage, rfl⟩ := h.assembler.storage
  exact prepare_eq_ok h.ready h.deferred hstorage

theorem Waiting.with_source (h : r.Waiting capacity held) (hplan : r.source.plan = used ++ source.plan) :
    ({ r with source } : Receiver).Waiting capacity held :=
  ⟨h.ready, h.deferred, h.assembler, h.giving.of_plan hplan⟩

/-- At the end of the stream the receiver tells what is missing, and forgets what it holds. -/
theorem Waiting.finish (h : r.Waiting capacity held) :
    r.finish.1 = r.assembler.framing.ending r.assembler.remote ⟨[], held, none⟩ ∧
      r.finish.2.source = r.source ∧ r.finish.2.assembler.state = .idle := by
  have hshows := h.assembler.shows
  obtain ⟨scratch, hstorage, -⟩ := h.assembler.storage
  unfold Receiver.finish Framing.ending
  simp only [hshows.length, List.length_eq_zero_iff]
  split
  case isTrue hnil =>
    exact ⟨rfl, rfl, hshows.idle.mpr hnil⟩
  case isFalse hne =>
    have htotal : r.assembler.pending.total?.getD 0 =
        match r.assembler.framing.readEnvelope held r.assembler.remote with
        | .ok (some e) => e.sizes.overhead.toNat + e.sizes.payload.toNat
        | _ => 0 := by
      split
      case h_1 e he => rw [(hshows.total _).mpr ⟨e, he, rfl⟩, Option.getD_some]
      case h_2 hnone =>
        match hcase : r.assembler.pending.total? with
        | none => rfl
        | some n =>
          obtain ⟨e, he, -⟩ := (hshows.total n).mp hcase
          exact absurd he (hnone e)
    refine ⟨?_, rfl, ?_⟩
    · simp only [htotal]
      split <;> rfl
    · have hpending : r.assembler.pending ≠ .idle := fun hidle =>
        hne (hshows.idle.mp (by simp [Assembler.state, hstorage, hidle]))
      unfold Assembler.reset
      split
      case h_1 hidle => exact absurd hidle hpending
      case h_2 => simp [Assembler.state, hstorage]

theorem ioError?_ending {f : Framing} (hl : f.layout.Lawful) (remote : String) (w : Bytes) :
    ioError? (.error (f.ending remote (f.decodeAll remote w))) = none := by
  have hrest := Framing.decode_rest_decodeAll hl remote w
  unfold Framing.ending
  cases herror : (f.decodeAll remote w).error? with
  | none =>
    simp only
    split
    · rfl
    · split <;> rfl
  | some e =>
    rw [herror] at hrest
    cases e
    case io cause => exact absurd (Framing.measure_of_decode_error hrest) (Framing.measure_ne_io cause)
    all_goals rfl

theorem Waiting.take (h : r.Waiting capacity held) (hne : data ≠ []) (hlen : data.length ≤ capacity)
    (source : Source) :
    let u := r.assembler.framing.decodeAll r.assembler.remote (held ++ data)
    (r.take data source).ready = u.messages ∧ (r.take data source).deferred? = u.error? ∧
      (r.take data source).assembler.framing = r.assembler.framing ∧
      (r.take data source).assembler.remote = r.assembler.remote ∧
      (u.error? = none → (r.take data source).assembler.Holding capacity u.rest) := by
  obtain ⟨hresult, hmessages, hframing, hremote, hheld⟩ :=
    h.assembler.receiveAt hne (show 0 + data.length ≤ capacity by omega)
  refine ⟨?_, ?_, hframing, hremote, hheld⟩
  · rw [← hmessages, Receiver.take, h.ready]
    rfl
  · have hreceive : r.assembler.receive data = r.assembler.receiveAt 0 data := rfl
    simp only [Receiver.take, hreceive, hresult, Framing.Unframed.result]
    cases (r.assembler.framing.decodeAll r.assembler.remote (held ++ data)).error? <;> rfl

/-- The answers of a receiver that holds `held` hand out what the decoder finds in these and the bytes behind them, and
how it ended. -/
def Decodes (r : Receiver) (held : Bytes) : Prop :=
  ∃ last used delivered,
    let u := r.assembler.framing.decodeAll r.assembler.remote (held ++ delivered)
    Course r last used delivered
      (u.messages.map .ok ++ [.error (r.assembler.framing.ending r.assembler.remote u)]) ∧
      (u.error? = none → last.source.left = [] ∧ last.assembler.state = .idle)

theorem decodes_of_course {u : Framing.Unframed}
    (h : Course r last used delivered
      (u.messages.map .ok ++ [.error (r.assembler.framing.ending r.assembler.remote u)]))
    (hall : r.assembler.framing.decodeAll r.assembler.remote (held ++ delivered) = u)
    (hend : u.error? = none → last.source.left = [] ∧ last.assembler.state = .idle) : r.Decodes held := by
  subst hall
  exact ⟨last, used, delivered, h, hend⟩

theorem decodes_of_failure (h : r.Waiting capacity held) {e : IoError}
    (hread : r.source.read capacity = (.error e, source)) (hlater : Decodes { r with source } held) :
    r.Decodes held := by
  obtain ⟨used, hplan, hfailures⟩ := Source.read_error_plan hread
  have hleft := Source.read_error_left hread
  obtain ⟨last, used', delivered, hcourse, hend⟩ := hlater
  refine ⟨last, used ++ used', delivered, ?_, hend⟩
  by_cases he : e = .interrupted
  · subst he
    have hnext := next_of_interrupted h.prepare hread
    exact hcourse.of_next_eq hnext hplan (by simp [hfailures]) (hleft.symm.trans (List.nil_append _).symm)
  · exact hcourse.of_io he (next_of_io h.prepare he hread) hplan hfailures hleft.symm

theorem decodes_of_end (h : r.Waiting capacity held) (hpos : 0 < capacity)
    (hread : r.source.read capacity = (.ok [], source)) : r.Decodes held := by
  obtain ⟨used, hplan, hfailures⟩ := Source.read_ok_plan hread
  obtain ⟨hleft, -⟩ := Source.read_ok_left hread
  have hnil := h.giving.left_of_read_nil hpos hread
  obtain ⟨hending, hsource, hidle⟩ := (h.with_source hplan).finish
  have hnext := next_of_end h.prepare hread
  rw [hending] at hnext
  have hall : r.assembler.framing.decodeAll r.assembler.remote (held ++ []) = ⟨[], held, none⟩ := by
    rw [List.append_nil, Framing.decodeAll_of_none h.assembler.incomplete]
  have hio := ioError?_ending (f := r.assembler.framing) h.assembler.lawful r.assembler.remote (held ++ [])
  rw [hall] at hio
  have hcourse := Course.of_end hnext hio (by rw [hsource, hplan]) (by simp [hfailures])
    (by rw [hsource]; exact hleft.symm)
  refine decodes_of_course hcourse hall fun _ => ⟨?_, hidle⟩
  rw [hsource, ← hnil, ← hleft]
  rfl

/-- An error waits until the messages in front of it, of the same read too, have been handed out. -/
theorem decodes_of_refused (h : r.Waiting capacity held) (hne : data ≠ [])
    (hread : r.source.read capacity = (.ok data, source)) {e : MessageError}
    (herror : (r.assembler.framing.decodeAll r.assembler.remote (held ++ data)).error? = some e) :
    r.Decodes held := by
  obtain ⟨used, hplan, hfailures⟩ := Source.read_ok_plan hread
  obtain ⟨hleft, hlen⟩ := Source.read_ok_left hread
  obtain ⟨hready, hdeferred, -⟩ := h.take hne hlen source
  have hio := ioError?_ending (f := r.assembler.framing) h.assembler.lawful r.assembler.remote (held ++ data)
  rw [herror] at hdeferred
  have hending : r.assembler.framing.ending r.assembler.remote
      (r.assembler.framing.decodeAll r.assembler.remote (held ++ data)) = e := by
    rw [Framing.ending, herror]
  rw [hending] at hio
  have hrefused := next_of_deferred (r := { r.take data source with ready := [] }) rfl hdeferred
  have hend := (Course.of_end hrefused hio (List.nil_append _).symm rfl rfl).of_ready hready
  have hcourse := hend.of_next_eq (next_of_data h.prepare hne hread) hplan (by simp [hfailures]) hleft.symm
  rw [List.append_nil data, ← hending] at hcourse
  exact decodes_of_course hcourse rfl fun hnone => by simp [herror] at hnone

theorem decodes_of_taken (h : r.Waiting capacity held) (hne : data ≠ [])
    (hread : r.source.read capacity = (.ok data, source))
    (herror : (r.assembler.framing.decodeAll r.assembler.remote (held ++ data)).error? = none)
    (hlater : Decodes { r.take data source with ready := [] }
      (r.assembler.framing.decodeAll r.assembler.remote (held ++ data)).rest) : r.Decodes held := by
  obtain ⟨used, hplan, hfailures⟩ := Source.read_ok_plan hread
  obtain ⟨hleft, hlen⟩ := Source.read_ok_left hread
  obtain ⟨hready, -, hframing, hremote, -⟩ := h.take hne hlen source
  obtain ⟨last, used', delivered, hcourse, hend⟩ := hlater
  have hnext := next_of_data h.prepare hne hread
  have hcourse := (hcourse.of_ready hready).of_next_eq hnext hplan (by simp [hfailures]) hleft.symm
  have hall := Framing.decodeAll_append h.assembler.lawful (held ++ data) delivered herror
  simp only [hframing, hremote] at hcourse hend
  rw [← List.append_assoc, ← List.map_append] at hcourse
  rw [List.append_assoc] at hall
  exact decodes_of_course hcourse hall hend

/-- **A receiver hands out what the decoder finds**, from whatever it holds. -/
theorem Waiting.decodes (h : r.Waiting capacity held) (hpos : 0 < capacity) : r.Decodes held := by
  -- Every read leaves less of the plan and the bytes, also one that fails.
  induction hbudget : r.source.budget using Nat.strongRecOn generalizing r held with
  | _ budget ih =>
    have hless := r.source.read_budget capacity
    match hread : r.source.read capacity with
    | (.error e, source) =>
      obtain ⟨used, hplan, -⟩ := Source.read_error_plan hread
      rw [hread] at hless
      exact decodes_of_failure h hread (ih _ (by simpa [hbudget] using hless) (h.with_source hplan) rfl)
    | (.ok [], source) => exact decodes_of_end h hpos hread
    | (.ok (b :: bs), source) =>
      have hne := List.cons_ne_nil b bs
      obtain ⟨used, hplan, -⟩ := Source.read_ok_plan hread
      obtain ⟨-, hdeferred, -, -, hheld⟩ := h.take hne (Source.read_ok_left hread).2 source
      rw [hread] at hless
      match herror : (r.assembler.framing.decodeAll r.assembler.remote (held ++ (b :: bs))).error? with
      | some e => exact decodes_of_refused h hne hread herror
      | none =>
        rw [herror] at hdeferred
        have hwaiting : ({ r.take (b :: bs) source with ready := [] } : Receiver).Waiting capacity
            (r.assembler.framing.decodeAll r.assembler.remote (held ++ (b :: bs))).rest :=
          ⟨rfl, hdeferred, hheld herror, h.giving.of_plan hplan⟩
        exact decodes_of_taken h hne hread herror (ih _ (by simpa [hbudget] using hless) hwaiting rfl)

/-- **Nothing is lost, repeated or put out of order.** Failed reads are told once; all other answers are the decoder's
messages, its error or the end. -/
theorem answers_eq_decodeAll (r : Receiver) (scratch : Scratch) (hlayout : r.assembler.layout = .standard)
    (hpartial : r.assembler.settings.allowPartial = true) (hstorage : r.assembler.storage = .ready scratch)
    (hpos : 0 < scratch.capacity) (hidle : r.assembler.pending = .idle) (hready : r.ready = [])
    (hdeferred : r.deferred? = none) (hgiving : Step.give 0 ∉ r.source.plan) :
    ∃ n used delivered,
      let told := (r.answers n).1
      let last := (r.answers n).2
      let u := r.assembler.framing.decodeAll r.assembler.remote delivered
      r.source.plan = used ++ last.source.plan ∧ r.source.left = delivered ++ last.source.left ∧
        told.filterMap ioError? = (Step.failures used).filter (· ≠ .interrupted) ∧
        told.filter (fun answer => (ioError? answer).isNone) =
          u.messages.map .ok ++ [.error (r.assembler.framing.ending r.assembler.remote u)] ∧
        (u.error? = none → last.source.left = [] ∧ last.assembler.state = .idle) := by
  have hheld := Assembler.holding_of_idle hlayout hpartial hstorage hidle
  have hwaiting : r.Waiting scratch.capacity [] := ⟨hready, hdeferred, hheld, hgiving⟩
  obtain ⟨last, used, delivered, hcourse, hend⟩ := hwaiting.decodes hpos
  obtain ⟨n, told, hanswers, hfailures, hresults⟩ := hcourse.answers
  refine ⟨n + 1, used, delivered, ?_⟩
  rw [hanswers]
  exact ⟨hcourse.plan, hcourse.left, hfailures, hresults, hend⟩

/-- A message and part of an envelope, with reads that fail on the way. -/
theorem answers_of_failing_stream :
    let stream : Bytes := [1, 0, 0, 0, 0xa4, 0xa5, 0xa5, 0xa5, 1, 0, 7, 9, 0, 0, 0]
    let plan : List Step := [.fail .interrupted, .give 4, .fail .brokenPipe, .give 9, .fail .wouldBlock]
    let r : Receiver := ⟨⟨stream, plan⟩, .ofSettings .standard "peer" {}, .ofSettings {}, [], none⟩
    Step.give 0 ∉ plan ∧ ∃ n, (r.answers n).1.filter (fun answer => (ioError? answer).isNone) =
      [.ok ⟨⟨⟨1, 0xa5a5a5a4, 11⟩, [7], "peer"⟩, [9]⟩, .error (.incomplete 3 0)] := by
  intro stream plan r
  have hgiving : Step.give 0 ∉ plan := by decide
  obtain ⟨n, used, delivered, -, hleft, -, hresults, hend⟩ :=
    answers_eq_decodeAll r { capacity := 65536 } rfl rfl rfl (by decide) rfl rfl rfl hgiving
  have hstream : (r.assembler.framing.decodeAll "peer" stream).error? = none := by decide +kernel
  refine ⟨hgiving, n, hresults.trans ?_⟩
  match herror : (r.assembler.framing.decodeAll "peer" delivered).error? with
  | some e =>
    have hlater := Framing.decodeAll_append_of_error Layout.standard_lawful delivered
      (r.answers n).2.source.left herror
    rw [← hleft, hstream] at hlater
    cases hlater.2
  | none =>
    rw [(hend herror).1, List.append_nil] at hleft
    have hmessages : (r.assembler.framing.decodeAll r.assembler.remote stream).messages =
        [⟨⟨⟨1, 0xa5a5a5a4, 11⟩, [7], "peer"⟩, [9]⟩] := by decide +kernel
    have hending : r.assembler.framing.ending r.assembler.remote
        (r.assembler.framing.decodeAll r.assembler.remote stream) = .incomplete 3 0 := by decide +kernel
    rw [← hleft, hmessages, hending]
    rfl

end Receiver

end MessageWire
