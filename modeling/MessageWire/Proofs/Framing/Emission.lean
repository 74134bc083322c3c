import MessageWire.Proofs.Framing.Sending
/-!
# What senders leave on the wire

However its calls end, a sender leaves a front part of one message after the other on the stream: all of those that
were sent, nothing of those that were refused, and of the others what the stream took before it failed
(`BufferedSender.sendEach_leaves`). The buffer in which the messages are made, and whatever an earlier call has left in
it, does not show, and neither do calls that were repeated.
-/

namespace MessageWire

/-- What a call that answered `result` leaves on the stream of a message that is encoded as `code`, if it is. -/
inductive Leaves : (code : Except MessageError Bytes) → (result : Except MessageError Unit) →
    (piece : Bytes) → Prop
  | sent (code : Bytes) : Leaves (.ok code) (.ok ()) code
  | refused (e : MessageError) : Leaves (.error e) (.error e) []
  | oversized (code : Bytes) (max : Nat) : Leaves (.ok code) (.error (.oversized code.length max)) []
  | closed {piece code : Bytes} (front : piece <+: code) : Leaves (.ok code) (.error .closed) piece
  | failed {piece code : Bytes} (e : IoError) (front : piece <+: code) : Leaves (.ok code) (.error (.io e)) piece

/-- The step is not a failure after which a sender tries again. -/
def Step.calm : Step → Bool
  | .fail .interrupted | .fail .wouldBlock => false
  | _ => true

/-! ### Single writes -/

namespace Sink

variable {s s' : Sink} {data : Bytes} {result : Except IoError Nat} {e : IoError}

theorem push_eq (s : Sink) (hne : data ≠ []) :
    s.push data = match s.write data with
      | (.error .interrupted, s') | (.error .wouldBlock, s') => s'.push data
      | (.error e, s') => (.error (.io e), s')
      | (.ok 0, s') => (.error .closed, s')
      | (.ok (n + 1), s') => s'.push (data.drop (n + 1)) := by
  obtain ⟨b, bs, rfl⟩ := List.exists_cons_of_ne_nil hne
  rw [push]
  split <;> simp_all

theorem push_of_repeated (hne : data ≠ []) (he : e.Repeated) (h : s.write data = (.error e, s')) :
    s.push data = s'.push data := by
  rw [s.push_eq hne, h]
  obtain rfl | rfl := he
  · rfl
  · rfl

theorem push_of_final (hne : data ≠ []) (he : ¬ e.Repeated) (h : s.write data = (.error e, s')) :
    s.push data = (.error (.io e), s') := by
  rw [s.push_eq hne, h]
  cases e with
  | interrupted => exact absurd (.inl rfl) he
  | wouldBlock => exact absurd (.inr rfl) he
  | brokenPipe | unexpectedEof | writeZero => rfl

theorem push_of_nothing (hne : data ≠ []) (h : s.write data = (.ok 0, s')) : s.push data = (.error .closed, s') := by
  rw [s.push_eq hne, h]

theorem push_of_taken (hne : data ≠ []) {n : Nat} (h : s.write data = (.ok (n + 1), s')) :
    s.push data = s'.push (data.drop (n + 1)) := by
  rw [s.push_eq hne, h]

/-- All that counts of a sink is what it answers to the write that comes next. -/
theorem push_congr (hne : data ≠ []) (h : s.write data = s'.write data) : s.push data = s'.push data := by
  rw [s.push_eq hne, s'.push_eq hne, h]

theorem push_error {failure : MessageError} (h : (s.push data).1 = .error failure) :
    failure = .closed ∨ ∃ e, failure = .io e := by
  fun_induction push s data with
  | case1 s => cases h
  | case2 s b bs s' hwrite ih => exact ih h
  | case3 s b bs s' hwrite ih => exact ih h
  | case4 s b bs e s' hinterrupted hblocked hwrite =>
    cases h
    exact .inr ⟨e, rfl⟩
  | case5 s b bs s' hwrite =>
    cases h
    exact .inl rfl
  | case6 s b bs n s' hwrite ih => exact ih h

theorem flushPlanned_error {plan : List Step} {failure : MessageError}
    (h : (s.flushPlanned plan).1 = .error failure) : ∃ e, failure = .io e := by
  fun_induction flushPlanned s plan with
  | case1 plan ih => exact ih h
  | case2 plan ih => exact ih h
  | case3 plan hinterrupted hblocked s' hflush => cases h
  | case4 plan hinterrupted hblocked e s' hflush =>
    cases h
    exact ⟨e, rfl⟩

/-! ### Writing from a buffer -/

def pushFrom (s : Sink) (buffer : Bytes) (offset : Nat) : Except MessageError Unit × Sink :=
  if _hoffset : offset < buffer.length then
    match _hwrite : s.write (buffer.drop offset) with
    | (.error .interrupted, s') => s'.pushFrom buffer offset
    | (.error .wouldBlock, s') => s'.pushFrom buffer offset
    | (.error e, s') => (.error (.io e), s')
    | (.ok 0, s') => (.error .closed, s')
    | (.ok (n + 1), s') => s'.pushFrom buffer (offset + (n + 1))
  else (.ok (), s)
termination_by (buffer.length - offset, s.plan.length)
decreasing_by
  · have hplan := s.write_plan (buffer.drop offset) (by rw [_hwrite])
    rw [_hwrite] at hplan
    exact Prod.Lex.right _ hplan
  · have hplan := s.write_plan (buffer.drop offset) (by rw [_hwrite])
    rw [_hwrite] at hplan
    exact Prod.Lex.right _ hplan
  · exact Prod.Lex.left _ _ (by omega)

theorem pushFrom_eq_push (s : Sink) (buffer : Bytes) (offset : Nat) :
    s.pushFrom buffer offset = s.push (buffer.drop offset) := by
  have hne {offset : Nat} (h : offset < buffer.length) : buffer.drop offset ≠ [] := by
    simpa using h
  fun_induction pushFrom s buffer offset with
  | case1 s offset hoffset s' hwrite ih => rw [ih, push_of_repeated (hne hoffset) (.inl rfl) hwrite]
  | case2 s offset hoffset s' hwrite ih => rw [ih, push_of_repeated (hne hoffset) (.inr rfl) hwrite]
  | case3 s offset hoffset e s' hinterrupted hblocked hwrite =>
    rw [push_of_final (hne hoffset) (fun he => he.elim hinterrupted hblocked) hwrite]
  | case4 s offset hoffset s' hwrite => rw [push_of_nothing (hne hoffset) hwrite]
  | case5 s offset hoffset n s' hwrite ih => rw [ih, push_of_taken (hne hoffset) hwrite, List.drop_drop]
  | case6 s offset hoffset => rw [List.drop_of_length_le (Nat.le_of_not_lt hoffset), push]

/-! ### Calls that are not repeated -/

/-- The sink without the failures after which a sender tries again. -/
def undisturbed (s : Sink) : Sink :=
  { s with plan := s.plan.filter Step.calm, flushPlan := s.flushPlan.filter Step.calm }

theorem writePlanned_undisturbed {plan : List Step} (hresult : ∀ e, result = .error e → ¬ e.Repeated)
    (h : s.writePlanned data plan = (result, s')) :
    s.undisturbed.writePlanned data (plan.filter Step.calm) = (result, s'.undisturbed) := by
  induction plan with
  | nil =>
    cases h
    rfl
  | cons step plan ih =>
    cases step with
    | give n =>
      cases h
      rfl
    | pending => exact ih h
    | fail e =>
      cases h
      have he := hresult e rfl
      cases e with
      | interrupted => exact absurd (.inl rfl) he
      | wouldBlock => exact absurd (.inr rfl) he
      | brokenPipe | unexpectedEof | writeZero => rfl

theorem writePlanned_with_plan (s : Sink) (data : Bytes) (ahead plan : List Step) :
    ({ s with plan := ahead } : Sink).writePlanned data plan = s.writePlanned data plan := by
  induction plan with
  | nil => rfl
  | cons step plan ih =>
    cases step with
    | give n => rfl
    | fail e => rfl
    | pending => exact ih

theorem writePlanned_undisturbed_of_repeated {plan : List Step} (he : e.Repeated)
    (h : s.writePlanned data plan = (.error e, s')) :
    s.undisturbed.writePlanned data (plan.filter Step.calm) = s'.undisturbed.write data := by
  induction plan with
  | nil => cases h
  | cons step plan ih =>
    cases step with
    | give n => cases h
    | pending => exact ih h
    | fail e' =>
      cases h
      have hwrite := s.undisturbed.writePlanned_with_plan data (plan.filter Step.calm)
        (plan.filter Step.calm)
      obtain rfl | rfl := he
      · exact hwrite.symm
      · exact hwrite.symm

theorem push_undisturbed (s : Sink) (data : Bytes) :
    s.undisturbed.push data = ((s.push data).1, (s.push data).2.undisturbed) := by
  fun_induction push s data with
  | case1 s => rw [push]
  | case2 s b bs s' hwrite ih =>
    rw [← ih]
    exact push_congr (List.cons_ne_nil b bs) (writePlanned_undisturbed_of_repeated (.inl rfl) hwrite)
  | case3 s b bs s' hwrite ih =>
    rw [← ih]
    exact push_congr (List.cons_ne_nil b bs) (writePlanned_undisturbed_of_repeated (.inr rfl) hwrite)
  | case4 s b bs e s' hinterrupted hblocked hwrite =>
    have hfinal : ¬ e.Repeated := fun he => he.elim hinterrupted hblocked
    have hcalm : s.undisturbed.write (b :: bs) = _ :=
      writePlanned_undisturbed (fun e' he' => by cases he'; exact hfinal) hwrite
    exact push_of_final (List.cons_ne_nil b bs) hfinal hcalm
  | case5 s b bs s' hwrite =>
    have hcalm : s.undisturbed.write (b :: bs) = (.ok 0, s'.undisturbed) :=
      writePlanned_undisturbed (by simp) hwrite
    exact push_of_nothing (List.cons_ne_nil b bs) hcalm
  | case6 s b bs n s' hwrite ih =>
    have hcalm : s.undisturbed.write (b :: bs) = (.ok (n + 1), s'.undisturbed) :=
      writePlanned_undisturbed (by simp) hwrite
    rw [push_of_taken (List.cons_ne_nil b bs) hcalm]
    exact ih

theorem flushPlanned_undisturbed (s : Sink) (plan : List Step) :
    s.undisturbed.flushPlanned (plan.filter Step.calm)
      = ((s.flushPlanned plan).1, (s.flushPlanned plan).2.undisturbed) := by
  induction plan with
  | nil => rfl
  | cons step plan ih =>
    cases step with
    | give n => rfl
    | pending => rfl
    | fail e =>
      cases e with
      | interrupted | wouldBlock => exact ih
      | brokenPipe | unexpectedEof | writeZero => rfl

end Sink

/-! ### Calls -/

/-- Makes one call after the other, also behind those that fail: the results, and the state afterwards. -/
def sendEach {σ : Type} (send : σ → Bytes → Bytes → Except MessageError Unit × σ) (s : σ) :
    List Dispatch → List (Except MessageError Unit) × σ
  | [] => ([], s)
  | d :: later =>
    let (result, s') := send s d.routing d.payload
    let (results, last) := sendEach send s' later
    (result :: results, last)

theorem sendEach_of_send {σ τ : Type} {send : σ → Bytes → Bytes → Except MessageError Unit × σ}
    {send' : τ → Bytes → Bytes → Except MessageError Unit × τ} (f : σ → τ)
    (h : ∀ s routing payload, send' (f s) routing payload
      = ((send s routing payload).1, f (send s routing payload).2))
    (s : σ) (calls : List Dispatch) :
    sendEach send' (f s) calls = ((sendEach send s calls).1, f (sendEach send s calls).2) := by
  induction calls generalizing s with
  | nil => rfl
  | cons d later ih => simp only [sendEach, h, ih]

namespace Sender

/-- The sender on a sink without the failures after which it tries again. -/
def undisturbed (s : Sender) : Sender := { s with sink := s.sink.undisturbed }

theorem send_undisturbed (s : Sender) (routing payload : Bytes) :
    s.undisturbed.send routing payload
      = ((s.send routing payload).1, (s.send routing payload).2.undisturbed) := by
  have hsame : s.undisturbed.wire routing payload = s.wire routing payload := rfl
  unfold Sender.send
  rw [hsame]
  cases s.wire routing payload with
  | error e => rfl
  | ok code =>
    have hpush : s.undisturbed.sink.push code = _ := s.sink.push_undisturbed code
    rcases hcase : s.sink.push code with ⟨result, sink⟩
    rw [hcase] at hpush
    simp only [hcase, hpush]
    cases result with
    | error e => rfl
    | ok =>
      have hflush : sink.undisturbed.flushPlanned sink.undisturbed.flushPlan = _ :=
        sink.flushPlanned_undisturbed sink.flushPlan
      simp only [Sender.flush, hflush]
      rfl

theorem layout_send (s : Sender) (routing payload : Bytes) : (s.send routing payload).2.layout = s.layout := by
  unfold Sender.send
  split
  · rfl
  · split <;> rfl

theorem leaves_send (s : Sender) (routing payload : Bytes) :
    ∃ piece, (s.send routing payload).2.sink.bytes = s.sink.bytes ++ piece ∧
      Leaves (s.layout.encodeMessage routing payload) (s.send routing payload).1 piece := by
  unfold Sender.send Sender.wire
  cases s.layout.encodeMessage routing payload with
  | error e => exact ⟨[], (List.append_nil _).symm, .refused e⟩
  | ok code =>
    by_cases hsize : code.length > s.maxMessageSize
    · simp only [hsize, if_true]
      exact ⟨[], (List.append_nil _).symm, .oversized code _⟩
    · simp only [hsize, if_false]
      have htakes := s.sink.takes_push code
      rcases hpush : s.sink.push code with ⟨result, sink⟩
      rw [hpush] at htakes
      cases result with
      | error e =>
        obtain ⟨⟨front, rest, -, hcode, hbytes⟩, -⟩ := htakes
        have hfront : front <+: code := ⟨rest, hcode.symm⟩
        obtain rfl | ⟨cause, rfl⟩ := Sink.push_error (congrArg Prod.fst hpush)
        · exact ⟨front, hbytes, .closed hfront⟩
        · exact ⟨front, hbytes, .failed cause hfront⟩
      | ok =>
        have hbytes := sink.bytes_flushPlanned sink.flushPlan
        rw [htakes.1] at hbytes
        refine ⟨code, hbytes, ?_⟩
        simp only [Sender.flush]
        cases hflush : (sink.flushPlanned sink.flushPlan).1 with
        | ok => exact .sent code
        | error e =>
          obtain ⟨cause, rfl⟩ := Sink.flushPlanned_error hflush
          exact .failed cause (List.prefix_refl code)

theorem leaves_sendEach (s : Sender) (calls : List Dispatch) :
    ∃ pieces : List Bytes, pieces.length = calls.length ∧
      (∀ k, (sendEach send s (calls.take k)).2.sink.bytes = s.sink.bytes ++ (pieces.take k).flatten) ∧
      ∀ (k : Nat) d, calls[k]? = some d → ∃ result piece, (sendEach send s calls).1[k]? = some result ∧
        pieces[k]? = some piece ∧ Leaves (s.layout.encodeMessage d.routing d.payload) result piece := by
  induction calls generalizing s with
  | nil => exact ⟨[], rfl, fun k => by simp [sendEach], fun k d h => by simp at h⟩
  | cons d later ih =>
    obtain ⟨piece, hbytes, hleaves⟩ := s.leaves_send d.routing d.payload
    obtain ⟨pieces, hlength, hlater, heach⟩ := ih (s.send d.routing d.payload).2
    refine ⟨piece :: pieces, congrArg (· + 1) hlength, fun k => ?_, fun k d' hd => ?_⟩
    · cases k with
      | zero => exact (List.append_nil _).symm
      | succ k =>
        simp only [List.take_succ_cons, sendEach, hlater, hbytes, List.flatten_cons, List.append_assoc]
    · cases k with
      | zero =>
        cases hd
        exact ⟨_, piece, rfl, rfl, hleaves⟩
      | succ k =>
        have hrest := heach k d' hd
        rw [layout_send] at hrest
        exact hrest

end Sender

/-- A sender with the buffer in which it makes its messages, one after the other. -/
structure BufferedSender extends Sender where
  buffer : Bytes := []

namespace BufferedSender

def clear (s : BufferedSender) : BufferedSender := { s with buffer := [] }

/-- Makes a message in the buffer and sends it from there. -/
def send (s : BufferedSender) (routing payload : Bytes) : Except MessageError Unit × BufferedSender :=
  match s.layout.appendMessage routing payload s.clear.buffer with
  | (.error e, buffer) => (.error e, { s with buffer })
  | (.ok (), buffer) =>
    if buffer.length > s.maxMessageSize then
      (.error (.oversized buffer.length s.maxMessageSize), { s with buffer }.clear)
    else
      match s.sink.pushFrom buffer 0 with
      | (.error e, sink) => (.error e, { s with sink, buffer })
      | (.ok (), sink) =>
        let (result, sender) := Sender.flush { s.toSender with sink }
        (result, { toSender := sender, buffer })

theorem send_toSender (s : BufferedSender) (routing payload : Bytes) :
    s.toSender.send routing payload = ((s.send routing payload).1, (s.send routing payload).2.toSender) := by
  unfold Sender.send Sender.wire BufferedSender.send
  rw [Layout.appendMessage_eq]
  cases s.layout.encodeMessage routing payload with
  | error e => rfl
  | ok code =>
    simp only [clear, List.nil_append, Sink.pushFrom_eq_push, List.drop_zero]
    by_cases hsize : code.length > s.maxMessageSize
    · simp only [hsize, if_true]
    · simp only [hsize, if_false]
      rcases s.sink.push code with ⟨result, sink⟩
      cases result with
      | error e => rfl
      | ok => rfl

/-- **What calls leave on the stream** are the pieces of their messages, in order: all, a front part or nothing, as each
call was answered. -/
theorem sendEach_leaves (s : BufferedSender) (calls : List Dispatch) :
    let ran := sendEach send s calls
    (∃ pieces : List Bytes, pieces.length = calls.length ∧
      (∀ k, (sendEach send s (calls.take k)).2.sink.bytes = s.sink.bytes ++ (pieces.take k).flatten) ∧
      ∀ (k : Nat) d, calls[k]? = some d → ∃ result piece, ran.1[k]? = some result ∧ pieces[k]? = some piece ∧
        Leaves (s.layout.encodeMessage d.routing d.payload) result piece) ∧
    sendEach Sender.send s.toSender calls = (ran.1, ran.2.toSender) ∧
    sendEach Sender.send s.toSender.undisturbed calls = (ran.1, ran.2.toSender.undisturbed) := by
  intro ran
  have hsender (calls : List Dispatch) := sendEach_of_send toSender send_toSender s calls
  have hcalm := sendEach_of_send Sender.undisturbed Sender.send_undisturbed s.toSender calls
  obtain ⟨pieces, hlength, hbytes, heach⟩ := s.toSender.leaves_sendEach calls
  rw [hsender] at hcalm
  refine ⟨⟨pieces, hlength, fun k => ?_, ?_⟩, hsender calls, hcalm⟩
  · rw [← hbytes k, hsender]
  · rw [hsender] at heach
    exact heach

end BufferedSender

end MessageWire
