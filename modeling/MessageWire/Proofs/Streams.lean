import MessageWire.Stream
/-!
# Streams that give and take

A source gives if no step of its plan is a read of no bytes: then a read finds nothing only at the end. It is
steady if, besides, no read fails for good. From a steady source `Source.fill` takes exactly the bytes that are
wanted, as far as there are any (`Source.Steady.fill`), whatever the reads were.

A sink yields if every write takes a byte or fails in a way that is repeated. Whatever a sink does, it has taken all of
what was written to it when the writer is content, and a proper front part if not, which a yielding sink never brings
about (`Sink.Takes`). What is taken one after the other is taken as a whole (`Sink.Takes.append`).
-/

namespace MessageWire

def Step.failures (plan : List Step) : List IoError :=
  plan.filterMap fun
    | .fail e => some e
    | _ => none

theorem Step.failures_append (plan later : List Step) :
    failures (plan ++ later) = failures plan ++ failures later := List.filterMap_append

namespace Source

variable {s s' : Source} {limit : Nat}

/-! ### The part of the plan that a read uses -/

theorem read_error_plan {e : IoError} (h : s.read limit = (.error e, s')) :
    ∃ used, s.plan = used ++ s'.plan ∧ Step.failures used = [e] := by
  unfold read at h
  generalize s.left = left at h
  generalize s.plan = plan at h ⊢
  induction plan with
  | nil => simp [readPlanned] at h
  | cons step plan ih =>
    cases step with
    | give n => simp [readPlanned] at h
    | fail e' =>
      cases h
      exact ⟨[.fail e], rfl, rfl⟩
    | pending =>
      obtain ⟨used, hused, hfailures⟩ := ih h
      exact ⟨.pending :: used, congrArg _ hused, hfailures⟩

theorem read_ok_plan {data : Bytes} (h : s.read limit = (.ok data, s')) :
    ∃ used, s.plan = used ++ s'.plan ∧ Step.failures used = [] := by
  unfold read at h
  generalize s.left = left at h
  generalize s.plan = plan at h ⊢
  induction plan with
  | nil =>
    cases h
    exact ⟨[], rfl, rfl⟩
  | cons step plan ih =>
    cases step with
    | give n =>
      cases h
      exact ⟨[.give n], rfl, rfl⟩
    | fail e => simp [readPlanned] at h
    | pending =>
      obtain ⟨used, hused, hfailures⟩ := ih h
      exact ⟨.pending :: used, congrArg _ hused, hfailures⟩

/-! ### Giving sources -/

/-- Every read that does not fail gives a byte if there is one. -/
def Giving (s : Source) : Prop := Step.give 0 ∉ s.plan

theorem Giving.of_plan (h : s.Giving) {used : List Step} (hused : s.plan = used ++ s'.plan) : s'.Giving := by
  intro hmem
  apply h
  rw [hused]
  exact List.mem_append_right used hmem

/-- A giving source is read to its end before a read finds nothing. -/
theorem Giving.left_of_read_nil (hs : s.Giving) (hpos : 0 < limit) (h : s.read limit = (.ok [], s')) :
    s.left = [] := by
  unfold read at h
  unfold Giving at hs
  generalize s.left = left at h ⊢
  generalize s.plan = plan at h hs
  induction plan with
  | nil =>
    simp only [readPlanned, Prod.mk.injEq, Except.ok.injEq, List.take_eq_nil_iff] at h
    exact h.1.resolve_left (by omega)
  | cons step plan ih =>
    cases step with
    | give n =>
      have hn : n ≠ 0 := by
        rintro rfl
        exact hs List.mem_cons_self
      simp only [readPlanned, Prod.mk.injEq, Except.ok.injEq, List.take_eq_nil_iff] at h
      exact h.1.resolve_left (by omega)
    | fail e => simp [readPlanned] at h
    | pending => exact ih h fun hmem => hs (List.mem_cons_of_mem _ hmem)

/-! ### Steady sources -/

/-- A source that gives, and whose reads fail only to be repeated. -/
structure Steady (s : Source) : Prop where
  giving : s.Giving
  failures : ∀ e, Step.fail e ∈ s.plan → e = .interrupted

theorem Steady.of_plan (h : s.Steady) {used : List Step} (hused : s.plan = used ++ s'.plan) : s'.Steady where
  giving := h.giving.of_plan hused
  failures e hmem := h.failures e (by rw [hused]; exact List.mem_append_right used hmem)

theorem Steady.interrupted_of_read (hs : s.Steady) {e : IoError} (h : s.read limit = (.error e, s')) :
    e = .interrupted := by
  obtain ⟨used, hused, hfailures⟩ := read_error_plan h
  apply hs.failures
  rw [hused]
  apply List.mem_append_left
  have hmem : e ∈ Step.failures used := by simp [hfailures]
  obtain ⟨step, hstep, hfail⟩ := List.mem_filterMap.mp hmem
  cases step <;> simp_all

theorem Steady.failures_of_plan (hs : s.Steady) {used later : List Step}
    (hplan : s.plan = used ++ later) : (Step.failures used).filter (· ≠ .interrupted) = [] := by
  apply List.filter_eq_nil_iff.mpr
  intro e he
  obtain ⟨step, hstep, hfail⟩ := List.mem_filterMap.mp he
  have hmem : step ∈ s.plan := by
    rw [hplan]
    exact List.mem_append_left _ hstep
  cases step with
  | give n => cases hfail
  | pending => cases hfail
  | fail e' =>
    cases hfail
    simp [hs.failures e hmem]

/-- **A steady source is filled from as if all its bytes were there at once.** -/
theorem Steady.fill (hs : s.Steady) (want : Nat) :
    (s.fill want).bytes = s.left.take want ∧ (s.fill want).error? = none ∧
      (s.fill want).source.left = s.left.drop want ∧ (s.fill want).source.Steady := by
  fun_induction Source.fill s want with
  | case1 s => exact ⟨by simp, rfl, by simp, hs⟩
  | case2 s want hwant s' hread ih =>
    obtain ⟨used, hused, -⟩ := read_error_plan hread
    rw [← read_error_left hread]
    exact ih (hs.of_plan hused)
  | case3 s want hwant e s' he hread => exact absurd (hs.interrupted_of_read hread) he
  | case4 s want hwant s' hread =>
    obtain ⟨used, hused, -⟩ := read_ok_plan hread
    have hleft := hs.giving.left_of_read_nil (Nat.pos_of_ne_zero hwant) hread
    have hleft' := (read_ok_left hread).1
    rw [List.nil_append, hleft] at hleft'
    exact ⟨by simp [hleft], rfl, by simp [hleft, hleft'], hs.of_plan hused⟩
  | case5 s want hwant b bs s' hread rest ih =>
    obtain ⟨used, hused, -⟩ := read_ok_plan hread
    obtain ⟨hleft, hlen⟩ := read_ok_left hread
    obtain ⟨hbytes, herror, hrest, hsteady⟩ := ih (hs.of_plan hused)
    rw [List.length_cons] at hlen
    refine ⟨?_, herror, ?_, hsteady⟩
    · rw [← hleft, List.take_append, List.take_of_length_le (by simpa using hlen), hbytes]
      rfl
    · rw [← hleft, List.drop_append, List.drop_of_length_le (by simpa using hlen), hrest]
      rfl

end Source

/-! ### Yielding sinks -/

/-- No step of the plan moves no bytes, and its failures are of those that are repeated. -/
structure Step.Yields (retried : IoError → Prop) (plan : List Step) : Prop where
  moves : .give 0 ∉ plan
  failures : ∀ e, .fail e ∈ plan → retried e

theorem Step.Yields.tail {retried : IoError → Prop} {step : Step} {plan : List Step}
    (h : Yields retried (step :: plan)) : Yields retried plan where
  moves hmem := h.moves (List.mem_cons_of_mem _ hmem)
  failures e hmem := h.failures e (List.mem_cons_of_mem _ hmem)

namespace Sink

variable {s s' s'' : Sink} {retried : IoError → Prop} {data code later : Bytes} {δ ε α β : Type}

/-- Every write takes a byte, or fails in a way that is repeated. -/
def Yields (retried : IoError → Prop) (s : Sink) : Prop := Step.Yields retried s.plan

theorem yields_writePlanned (s : Sink) (hne : data ≠ []) {plan : List Step} (hplan : Step.Yields retried plan) :
    (∀ e, (s.writePlanned data plan).1 = .error e → retried e)
      ∧ (∀ n, (s.writePlanned data plan).1 = .ok n → n ≠ 0)
      ∧ Step.Yields retried (s.writePlanned data plan).2.plan := by
  have hpos := List.length_pos_iff.mpr hne
  induction plan with
  | nil =>
    refine ⟨fun e he => (nomatch he), fun n hn => ?_, hplan⟩
    cases hn
    exact Nat.ne_of_gt hpos
  | cons step plan ih =>
    cases step with
    | give k =>
      have hk : k ≠ 0 := by
        rintro rfl
        exact hplan.moves List.mem_cons_self
      refine ⟨fun e he => (nomatch he), fun n hn => ?_, hplan.tail⟩
      cases hn
      omega
    | fail e =>
      refine ⟨fun e' he => ?_, fun n hn => (nomatch hn), hplan.tail⟩
      cases he
      exact hplan.failures e List.mem_cons_self
    | pending => exact ih hplan.tail

/-! ### What a sink has taken -/

/-- What became of `code`: all of it was taken, or a proper front part, which does not happen to a sink that yields. -/
def Takes (retried : IoError → Prop) (s : Sink) (code : Bytes) (result : Except ε α) (s' : Sink) : Prop :=
  match result with
  | .ok _ => s'.bytes = s.bytes ++ code ∧ (s.Yields retried → s'.Yields retried)
  | .error _ =>
    (∃ front rest, rest ≠ [] ∧ code = front ++ rest ∧ s'.bytes = s.bytes ++ front) ∧ ¬ s.Yields retried

theorem takes_nil (a : α) : s.Takes retried [] (.ok a : Except ε α) s :=
  ⟨(List.append_nil _).symm, id⟩

theorem Takes.append {a : α} {result : Except δ β} (h : s.Takes retried code (.ok a : Except ε α) s')
    (hlater : s'.Takes retried later result s'') : s.Takes retried (code ++ later) result s'' := by
  obtain ⟨hbytes, hyields⟩ := h
  cases result with
  | ok b =>
    refine ⟨?_, fun hs => hlater.2 (hyields hs)⟩
    rw [hlater.1, hbytes, List.append_assoc]
  | error e =>
    obtain ⟨⟨front, rest, hrest, rfl, hfront⟩, hnot⟩ := hlater
    refine ⟨⟨code ++ front, rest, hrest, (List.append_assoc _ _ _).symm, ?_⟩, fun hs => hnot (hyields hs)⟩
    rw [hfront, hbytes, List.append_assoc]

theorem Takes.append_of_error {e : ε} (h : s.Takes retried code (.error e : Except ε α) s') (later : Bytes)
    (e' : δ) : s.Takes retried (code ++ later) (.error e' : Except δ β) s' := by
  obtain ⟨⟨front, rest, hrest, rfl, hfront⟩, hnot⟩ := h
  exact ⟨⟨front, rest ++ later, by simp [hrest], List.append_assoc _ _ _, hfront⟩, hnot⟩

theorem Takes.map {result : Except ε α} (h : s.Takes retried code result s') (f : α → β) :
    s.Takes retried code (result.map f) s' := by
  cases result with
  | ok a => exact h
  | error e => exact h

/-! ### Loops of writes -/

theorem Yields.of_write_ok (hs : s.Yields retried) (hne : data ≠ []) {n : Nat} (h : s.write data = (.ok n, s')) :
    n ≠ 0 ∧ s'.Yields retried := by
  obtain ⟨-, hmoves, hyields⟩ := yields_writePlanned s hne hs
  rw [← write, h] at hmoves hyields
  exact ⟨hmoves n rfl, hyields⟩

theorem Yields.of_write_error (hs : s.Yields retried) (hne : data ≠ []) {e : IoError}
    (h : s.write data = (.error e, s')) : retried e ∧ s'.Yields retried := by
  obtain ⟨hretried, -, hyields⟩ := yields_writePlanned s hne hs
  rw [← write, h] at hretried hyields
  exact ⟨hretried e rfl, hyields⟩

theorem Takes.of_write {n : Nat} {result : Except ε α} (hlater : s'.Takes retried (data.drop n) result s'')
    (hne : data ≠ []) (h : s.write data = (.ok n, s')) : s.Takes retried data result s'' := by
  have hfirst : s.Takes retried (data.take n) (.ok n : Except ε Nat) s' :=
    ⟨write_ok h, fun hs => (hs.of_write_ok hne h).2⟩
  have hall := hfirst.append hlater
  rwa [List.take_append_drop] at hall

theorem Takes.of_failure {e : IoError} {result : Except ε α} (hlater : s'.Takes retried data result s'')
    (hne : data ≠ []) (h : s.write data = (.error e, s')) : s.Takes retried data result s'' := by
  have hfirst : s.Takes retried [] (.ok () : Except ε Unit) s' := by
    refine ⟨?_, fun hs => (hs.of_write_error hne h).2⟩
    rw [write_error h, List.append_nil]
  exact hfirst.append hlater

theorem takes_of_final {e : IoError} (hne : data ≠ []) (h : s.write data = (.error e, s')) (he : ¬ retried e)
    (e' : ε) : s.Takes retried data (.error e' : Except ε α) s' := by
  refine ⟨⟨[], data, hne, rfl, ?_⟩, fun hs => he (hs.of_write_error hne h).1⟩
  rw [write_error h, List.append_nil]

theorem takes_of_nothing (hne : data ≠ []) (h : s.write data = (.ok 0, s')) (e' : ε) :
    s.Takes retried data (.error e' : Except ε α) s' := by
  refine ⟨⟨[], data, hne, rfl, ?_⟩, fun hs => (hs.of_write_ok hne h).1 rfl⟩
  rw [write_ok h, List.take_zero]

def Steady (s : Sink) : Prop := s.Yields (· = .interrupted)

theorem takes_writeAll (s : Sink) (data : Bytes) :
    s.Takes (· = .interrupted) data (s.writeAll data).1 (s.writeAll data).2 := by
  fun_induction writeAll s data with
  | case1 s => exact takes_nil ()
  | case2 s b bs s' hwrite ih => exact ih.of_failure (List.cons_ne_nil _ _) hwrite
  | case3 s b bs e s' he hwrite => exact takes_of_final (List.cons_ne_nil _ _) hwrite he _
  | case4 s b bs s' hwrite => exact takes_of_nothing (List.cons_ne_nil _ _) hwrite _
  | case5 s b bs n s' hwrite ih => exact Takes.of_write ih (List.cons_ne_nil b bs) hwrite

end Sink

end MessageWire
