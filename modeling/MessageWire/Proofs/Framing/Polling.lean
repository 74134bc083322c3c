import MessageWire.Proofs.Framing.Reception
/-!
# Receivers that are polled

A call for the next message that finds the stream not ready stops in the read that it was making. The next poll
goes on from there, unless the call has been given up and another one begun. It makes no difference which: the call
keeps nothing that the receiver does not know (`Receiver.room_of_waits`). So the answers, and what has been taken off
the stream at each, are those of a receiver that waits (`Receiver.awaited_eq_answers`).
-/

namespace MessageWire

namespace Source

variable {s s' : Source} {limit : Nat} {found : Poll} {answer : Except IoError Bytes}

theorem budget_of_poll (h : s.poll limit = (found, s')) (hfound : found ≠ .ready []) : s'.budget < s.budget := by
  have hbudget := s.poll_budget limit
  rw [h] at hbudget
  exact hbudget.resolve_left hfound

/-- A read is a poll, repeated while the stream is not ready. -/
theorem read_of_poll (h : s.poll limit = (found, s')) :
    s.read limit = match found with
      | .pending => s'.read limit
      | .failed e => (.error e, s')
      | .ready data => (.ok data, s') := by
  obtain ⟨left, plan⟩ := s
  cases plan with
  | nil =>
    cases h
    rfl
  | cons step plan => cases step <;> cases h <;> rfl

/-- The source without the calls that it is not ready for. -/
def unblocked (s : Source) : Source := ⟨s.left, s.plan.filter (· ≠ .pending)⟩

theorem read_unblocked (h : s.read limit = (answer, s')) : s.unblocked.read limit = (answer, s'.unblocked) := by
  obtain ⟨left, plan⟩ := s
  induction plan with
  | nil =>
    cases h
    rfl
  | cons step plan ih =>
    cases step with
    | give n =>
      cases h
      rfl
    | fail e =>
      cases h
      rfl
    | pending => exact ih h

end Source

namespace Receiver

variable {r r' : Receiver} {source : Source} {capacity : Nat}

/-! ### The stream of a receiver -/

/-- The receiver with something else in the place of its stream. -/
def onSource (f : Source → Source) (r : Receiver) : Receiver := { r with source := f r.source }

theorem prepare_onSource (f : Source → Source) (r : Receiver) :
    (r.onSource f).prepare = match r.prepare with
      | .error (answer, r') => .error (answer, r'.onSource f)
      | .ok capacity => .ok capacity := by
  obtain ⟨source, assembler, catalog, ready, deferred⟩ := r
  cases ready with
  | cons m rest => rfl
  | nil =>
    cases deferred with
    | some e => rfl
    | none =>
      simp only [prepare, onSource]
      cases assembler.scratch with
      | error e => rfl
      | ok scratch => rfl

theorem finish_onSource (f : Source → Source) (r : Receiver) :
    (r.onSource f).finish = (r.finish.1, r.finish.2.onSource f) := by
  by_cases hidle : r.assembler.pending.length = 0
  · simp [finish, onSource, hidle]
  · simp [finish, onSource, hidle]

theorem prepare_with_source (source : Source) (h : r.prepare = .ok capacity) :
    ({ r with source } : Receiver).prepare = .ok capacity := by
  have hprepare := r.prepare_onSource fun _ => source
  rw [h] at hprepare
  exact hprepare

/-- What has to be waited for in front of a read makes no difference to the answer. -/
theorem next_with_source (hprepare : r.prepare = .ok capacity)
    (hread : source.read capacity = r.source.read capacity) : next { r with source } = r.next := by
  have hprepare' := prepare_with_source source hprepare
  rcases hanswer : r.source.read capacity with ⟨answer, later⟩
  rw [hanswer] at hread
  cases answer with
  | error e =>
    by_cases he : e = .interrupted
    · subst he
      rw [next_of_interrupted hprepare hanswer, next_of_interrupted hprepare' hread]
    · rw [next_of_io hprepare he hanswer, next_of_io hprepare' he hread]
  | ok data =>
    cases data with
    | nil => rw [next_of_end hprepare hanswer, next_of_end hprepare' hread]
    | cons b bs =>
      have hne := List.cons_ne_nil b bs
      rw [next_of_data hprepare hne hanswer, next_of_data hprepare' hne hread]
      rfl

/-- The receiver on the stream without the calls that it is not ready for. -/
def unblocked (r : Receiver) : Receiver := r.onSource Source.unblocked

theorem next_unblocked (r : Receiver) : r.unblocked.next = (r.next.1, r.next.2.unblocked) := by
  have hprepare : r.unblocked.prepare = _ := r.prepare_onSource Source.unblocked
  fun_induction Receiver.next r with
  | case1 r answer h =>
    rw [h] at hprepare
    rw [next, hprepare]
    rfl
  | case2 r capacity h source hread ih =>
    rw [h] at hprepare
    rw [next_of_interrupted hprepare (Source.read_unblocked hread)]
    exact ih (prepare_onSource Source.unblocked { r with source })
  | case3 r capacity h e source he hread =>
    rw [h] at hprepare
    rw [next_of_io hprepare he (Source.read_unblocked hread)]
    rfl
  | case4 r capacity h source hread e r' hfinish =>
    rw [h] at hprepare
    have hend := finish_onSource Source.unblocked { r with source }
    rw [hfinish] at hend
    rw [next_of_end hprepare (Source.read_unblocked hread)]
    exact congrArg (fun ended : MessageError × Receiver => (Except.error ended.1, ended.2)) hend
  | case5 r capacity h b bs source hread ih =>
    rw [h] at hprepare
    rw [next_of_data hprepare (List.cons_ne_nil b bs) (Source.read_unblocked hread)]
    exact ih (prepare_onSource Source.unblocked (r.take (b :: bs) source))

theorem answers_unblocked (r : Receiver) (n : Nat) :
    r.unblocked.answers n = ((r.answers n).1, (r.answers n).2.unblocked) := by
  induction n generalizing r with
  | zero => rfl
  | succ n ih => simp only [answers, next_unblocked, ih]

/-! ### Calls -/

/-- Where a call for the next message stands. -/
inductive Call where
  | start
  | reading (capacity : Nat)

/-- What a poll of a call comes to. -/
inductive Progress where
  | waits (call : Call)
  | answers (result : Except MessageError Message)

/-- What the receiver answers without reading, or else the room for the read that the call goes on with. -/
def Call.room (r : Receiver) : Call → Except (Except MessageError Message × Receiver) Nat
  | .start => r.prepare
  | .reading capacity => .ok capacity

def advance (r : Receiver) (call : Call) : Progress × Receiver :=
  match call.room r with
  | .error (answer, r') => (.answers answer, r')
  | .ok capacity =>
    match _hpoll : r.source.poll capacity with
    | (.pending, source) => (.waits (.reading capacity), { r with source })
    | (.failed .interrupted, source) => advance { r with source } .start
    | (.failed e, source) => (.answers (.error (.io e)), { r with source })
    | (.ready [], source) =>
      let (e, r') := finish { r with source }
      (.answers (.error e), r')
    | (.ready (b :: bs), source) => advance (r.take (b :: bs) source) .start
termination_by r.source.budget
decreasing_by
  all_goals exact Source.budget_of_poll _hpoll (by simp)

variable {call call' : Call}

theorem advance_budget (h : r.advance call = (.waits call', r')) : r'.source.budget < r.source.budget := by
  fun_induction advance r call with
  | case1 r call answer r' hroom => cases h
  | case2 r call capacity hroom source hpoll =>
    cases h
    exact Source.budget_of_poll hpoll (by simp)
  | case3 r call capacity hroom source hpoll ih =>
    exact Nat.lt_trans (ih h) (Source.budget_of_poll hpoll (by simp))
  | case4 r call capacity hroom e source he hpoll => cases h
  | case5 r call capacity hroom source hpoll e r' hfinish => cases h
  | case6 r call capacity hroom b bs source hpoll ih =>
    exact Nat.lt_trans (ih h) (Source.budget_of_poll hpoll (by simp))

def Progress.polled : Progress → Polled
  | .waits _ => .pending
  | .answers result => .ready result

theorem advance_of_room (call : Call) (hroom : call.room r = .ok capacity) :
    r.advance call = match r.source.poll capacity with
      | (.pending, source) => (.waits (.reading capacity), { r with source })
      | (.failed .interrupted, source) => advance { r with source } .start
      | (.failed e, source) => (.answers (.error (.io e)), { r with source })
      | (.ready [], source) => (.answers (.error (finish { r with source }).1), (finish { r with source }).2)
      | (.ready (b :: bs), source) => advance (r.take (b :: bs) source) .start := by
  rw [advance, hroom]
  simp only
  split <;> simp_all

/-- `Receiver.poll` begins a call, and gives it up if it has to wait. -/
theorem poll_eq_advance (r : Receiver) : r.poll = ((r.advance .start).1.polled, (r.advance .start).2) := by
  fun_induction poll r with
  | case1 r result r' hprepare =>
    rw [advance, Call.room, hprepare]
    rfl
  | case2 r capacity hprepare source hpoll =>
    rw [advance_of_room .start hprepare, hpoll]
    rfl
  | case3 r capacity hprepare source hpoll ih =>
    rw [advance_of_room .start hprepare, hpoll]
    exact ih
  | case4 r capacity hprepare e source he hpoll =>
    rw [advance_of_room .start hprepare, hpoll]
    cases e with
    | interrupted => exact absurd rfl he
    | wouldBlock | brokenPipe | unexpectedEof | writeZero => rfl
  | case5 r capacity hprepare source hpoll e r' hfinish =>
    rw [advance_of_room .start hprepare, hpoll]
    simp only [hfinish]
    rfl
  | case6 r capacity hprepare b bs source hpoll ih =>
    rw [advance_of_room .start hprepare, hpoll]
    exact ih

/-- Polls a call until it answers. One that is given up, as `givenUp` tells by the number of polls before it, is begun
anew. -/
def await (givenUp : Nat → Bool) (waited : Nat) (r : Receiver) (call : Call) :
    Except MessageError Message × Receiver × Nat :=
  match _hadvance : r.advance call with
  | (.answers answer, r') => (answer, r', waited)
  | (.waits call', r') => await givenUp (waited + 1) r' (if givenUp waited then .start else call')
termination_by r.source.budget
decreasing_by
  exact advance_budget _hadvance

/-- The first `n` answers that are waited for so, and the receiver afterwards. -/
def awaited (givenUp : Nat → Bool) (waited : Nat) (r : Receiver) :
    Nat → List (Except MessageError Message) × Receiver
  | 0 => ([], r)
  | n + 1 =>
    let (answer, r', waited') := r.await givenUp waited .start
    let (later, last) := r'.awaited givenUp waited' n
    (answer :: later, last)

/-- **A call keeps nothing that the receiver does not know.** Where it waits, a new call would read just so. -/
theorem room_of_waits (hcall : call.room r = r.prepare) (h : r.advance call = (.waits call', r')) :
    call'.room r' = r'.prepare := by
  fun_induction advance r call with
  | case1 r call answer r' hroom => cases h
  | case2 r call capacity hroom source hpoll =>
    cases h
    exact (prepare_with_source source (hcall.symm.trans hroom)).symm
  | case3 r call capacity hroom source hpoll ih => exact ih rfl h
  | case4 r call capacity hroom e source he hpoll => cases h
  | case5 r call capacity hroom source hpoll e r' hfinish => cases h
  | case6 r call capacity hroom b bs source hpoll ih => exact ih rfl h

/-- What a receiver that waits answers from where a poll left off. -/
def Progress.next : Progress × Receiver → Except MessageError Message × Receiver
  | (.waits _, r) => r.next
  | (.answers answer, r) => (answer, r)

theorem next_advance (hcall : call.room r = r.prepare) : Progress.next (r.advance call) = r.next := by
  fun_induction advance r call with
  | case1 r call answer r' hroom =>
    rw [next, ← hcall, hroom]
    rfl
  | case2 r call capacity hroom source hpoll =>
    exact next_with_source (hcall.symm.trans hroom) (Source.read_of_poll hpoll).symm
  | case3 r call capacity hroom source hpoll ih =>
    rw [next_of_interrupted (hcall.symm.trans hroom) (Source.read_of_poll hpoll)]
    exact ih rfl
  | case4 r call capacity hroom e source he hpoll =>
    rw [next_of_io (hcall.symm.trans hroom) he (Source.read_of_poll hpoll)]
    rfl
  | case5 r call capacity hroom source hpoll e r' hfinish =>
    rw [next_of_end (hcall.symm.trans hroom) (Source.read_of_poll hpoll), hfinish]
    rfl
  | case6 r call capacity hroom b bs source hpoll ih =>
    rw [next_of_data (hcall.symm.trans hroom) (List.cons_ne_nil b bs) (Source.read_of_poll hpoll)]
    exact ih rfl

/-- Whatever is given up, the answer is that of a receiver that waits. -/
theorem await_eq_next (givenUp : Nat → Bool) (waited : Nat) (hcall : call.room r = r.prepare) :
    ((r.await givenUp waited call).1, (r.await givenUp waited call).2.1) = r.next := by
  fun_induction await givenUp waited r call with
  | case1 waited r call answer r' hadvance =>
    rw [← next_advance hcall, hadvance]
    rfl
  | case2 waited r call call' r' hadvance ih =>
    have hnext := next_advance hcall
    rw [hadvance] at hnext
    rw [← hnext]
    apply ih
    split
    · rfl
    · exact room_of_waits hcall hadvance

theorem awaited_eq_waiting (givenUp : Nat → Bool) (waited : Nat) (r : Receiver) (n : Nat) :
    r.awaited givenUp waited n = r.answers n := by
  induction n generalizing r waited with
  | zero => rfl
  | succ n ih =>
    have hnext : ((r.await givenUp waited .start).1, (r.await givenUp waited .start).2.1) = r.next :=
      await_eq_next givenUp waited rfl
    rw [answers, ← hnext]
    simp only [awaited, ih]

/-- **A receiver that is polled is a receiver that waits**: its answers are the same, after the same bytes, whichever of
the waiting calls are given up. -/
theorem awaited_eq_answers (givenUp : Nat → Bool) (r : Receiver) (n : Nat) :
    (r.awaited givenUp 0 n).1 = (r.unblocked.answers n).1 ∧
      (r.awaited givenUp 0 n).2.source.left = (r.unblocked.answers n).2.source.left ∧
      (r.awaited givenUp 0 n).2.unblocked = (r.unblocked.answers n).2 := by
  rw [awaited_eq_waiting, answers_unblocked]
  exact ⟨rfl, rfl, rfl⟩

end Receiver

end MessageWire
