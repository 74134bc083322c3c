import MessageWire.Proofs.Framing.Standard
import MessageWire.Proofs.Streams
import MessageWire.Message.Sender
/-!
# Sending messages

A sink is patient if every write takes a byte and if calls fail only to be repeated. A sender of the standard format
lets pass what is within its limits (`Sender.wire_eq_ok_iff`). Through a patient sink it sends any messages that are not
too long, and the sink has then taken their encodings, one after the other (`Sender.Ready.sendAll`).
-/

namespace MessageWire

def IoError.Repeated (e : IoError) : Prop := e = .interrupted ∨ e = .wouldBlock

namespace Sink

variable {s : Sink} {data : Bytes}

theorem takes_push (s : Sink) (data : Bytes) : s.Takes IoError.Repeated data (s.push data).1 (s.push data).2 := by
  fun_induction push s data with
  | case1 s => exact takes_nil ()
  | case2 s b bs s' hwrite ih => exact ih.of_failure (List.cons_ne_nil _ _) hwrite
  | case3 s b bs s' hwrite ih => exact ih.of_failure (List.cons_ne_nil _ _) hwrite
  | case4 s b bs e s' hinterrupted hblocked hwrite =>
    have hfinal : ¬ e.Repeated := fun he => he.elim hinterrupted hblocked
    exact takes_of_final (List.cons_ne_nil _ _) hwrite hfinal _
  | case5 s b bs s' hwrite => exact takes_of_nothing (List.cons_ne_nil _ _) hwrite _
  | case6 s b bs n s' hwrite ih => exact Takes.of_write ih (List.cons_ne_nil b bs) hwrite

theorem flushPlan_writePlanned (s : Sink) (data : Bytes) (plan : List Step) :
    (s.writePlanned data plan).2.flushPlan = s.flushPlan := by
  induction plan with
  | nil => rfl
  | cons step plan ih =>
    cases step with
    | give n => rfl
    | fail e => rfl
    | pending => exact ih

theorem flushPlan_push (s : Sink) (data : Bytes) : (s.push data).2.flushPlan = s.flushPlan := by
  have hwrite {s s' : Sink} {b : UInt8} {bs : Bytes} {result : Except IoError Nat}
      (h : s.write (b :: bs) = (result, s')) : s'.flushPlan = s.flushPlan := by
    have hplan := s.flushPlan_writePlanned (b :: bs) s.plan
    change (s.write (b :: bs)).2.flushPlan = _ at hplan
    rwa [h] at hplan
  fun_induction push s data with
  | case1 s => rfl
  | case2 s b bs s' h ih => exact ih.trans (hwrite h)
  | case3 s b bs s' h ih => exact ih.trans (hwrite h)
  | case4 s b bs e s' hinterrupted hblocked h => exact hwrite h
  | case5 s b bs s' h => exact hwrite h
  | case6 s b bs n s' h ih => exact ih.trans (hwrite h)

/-- Every write takes a byte, and writes and flushes fail only to be repeated. -/
structure Patient (s : Sink) : Prop where
  writes : s.Yields IoError.Repeated
  flushes : ∀ e, .fail e ∈ s.flushPlan → e.Repeated

theorem Patient.push (h : s.Patient) (data : Bytes) :
    (s.push data).1 = .ok () ∧ (s.push data).2.bytes = s.bytes ++ data ∧ (s.push data).2.Patient := by
  have htakes := s.takes_push data
  cases hresult : (s.push data).1 with
  | error e =>
    rw [hresult] at htakes
    exact absurd h.writes htakes.2
  | ok _ =>
    rw [hresult] at htakes
    refine ⟨rfl, htakes.1, htakes.2 h.writes, ?_⟩
    rw [flushPlan_push]
    exact h.flushes

theorem flushPlanned_of_repeated (s : Sink) {plan : List Step} (h : ∀ e, .fail e ∈ plan → e.Repeated) :
    ∃ later flushes, s.flushPlanned plan = (.ok (), { s with flushPlan := later, flushes })
      ∧ ∀ e, .fail e ∈ later → e.Repeated := by
  induction plan with
  | nil => exact ⟨[], s.flushes + 1, rfl, fun e he => nomatch he⟩
  | cons step plan ih =>
    have hlater : ∀ e, .fail e ∈ plan → e.Repeated := fun e he => h e (List.mem_cons_of_mem _ he)
    cases step with
    | give n => exact ⟨plan, s.flushes + 1, rfl, hlater⟩
    | pending => exact ⟨plan, s.flushes + 1, rfl, hlater⟩
    | fail e =>
      obtain rfl | rfl := h e List.mem_cons_self
      · exact ih hlater
      · exact ih hlater

theorem bytes_flushPlanned (s : Sink) (plan : List Step) : (s.flushPlanned plan).2.bytes = s.bytes := by
  have hflush (plan : List Step) : (Sink.flush { s with flushPlan := plan }).2.bytes = s.bytes := by
    unfold Sink.flush
    split
    all_goals rfl
  fun_induction flushPlanned s plan with
  | case1 plan ih => exact ih
  | case2 plan ih => exact ih
  | case3 plan hinterrupted hblocked s' h =>
    have hbytes := hflush plan
    rwa [h] at hbytes
  | case4 plan hinterrupted hblocked e s' h =>
    have hbytes := hflush plan
    rwa [h] at hbytes

end Sink

/-- Something to be sent. -/
structure Dispatch where
  routing : Bytes
  payload : Bytes
  deriving DecidableEq

namespace Dispatch

/-- The message has an encoding, which is no longer than allowed. -/
structure Fits (d : Dispatch) (ceiling : Nat) : Prop where
  routing : d.routing.length ≤ Layout.maxRouting
  total : Layout.standardMinimum + d.routing.length + d.payload.length ≤ min ceiling maxPayload

/-- The bytes of the message in the standard format. -/
def wire (d : Dispatch) : Bytes := Layout.standardWire d.routing d.payload

theorem Fits.payload {d : Dispatch} {ceiling : Nat} (h : d.Fits ceiling) : d.payload.length ≤ maxPayload := by
  have htotal := h.total
  omega

end Dispatch

namespace Sender

/-- Sends one message after the other, until one is not sent. -/
def sendAll (s : Sender) : List Dispatch → Except MessageError Unit × Sender
  | [] => (.ok (), s)
  | d :: later =>
    match s.send d.routing d.payload with
    | (.error e, s') => (.error e, s')
    | (.ok (), s') => s'.sendAll later

variable {s : Sender} {ceiling : Nat} {routing payload code : Bytes}

theorem wire_eq_ok_iff (hlayout : s.layout = .standard) :
    s.wire routing payload = .ok code ↔
      routing.length ≤ Layout.maxRouting ∧ payload.length ≤ maxPayload
        ∧ Layout.standardMinimum + routing.length + payload.length ≤ s.maxMessageSize
        ∧ code = Layout.standardWire routing payload := by
  have hlen : (Layout.standardWire routing payload).length = _ := Layout.length_standardWire
  constructor
  · intro h
    cases hencode : s.layout.encodeMessage routing payload with
    | error e => simp [Sender.wire, hencode] at h
    | ok encoded =>
      rw [hlayout] at hencode
      obtain ⟨hrouting, hpayload⟩ := Layout.lengths_of_encodeMessage hencode
      rw [Layout.encodeMessage_standard hrouting hpayload] at hencode
      cases hencode
      rw [Sender.wire, hlayout, Layout.encodeMessage_standard hrouting hpayload] at h
      simp only at h
      split at h
      · cases h
      · cases h
        exact ⟨hrouting, hpayload, by omega, rfl⟩
  · rintro ⟨hrouting, hpayload, htotal, rfl⟩
    rw [Sender.wire, hlayout, Layout.encodeMessage_standard hrouting hpayload]
    exact if_neg (by omega)

/-- A sender of the standard format whose sink is patient. -/
structure Ready (s : Sender) (ceiling : Nat) : Prop where
  layout : s.layout = .standard
  ceiling_le : ceiling ≤ s.maxMessageSize
  sink : s.sink.Patient

theorem Ready.wire (h : s.Ready ceiling) {d : Dispatch} (hd : d.Fits ceiling) :
    s.wire d.routing d.payload = .ok d.wire := by
  have htotal := Nat.le_trans (Nat.le_min.mp hd.total).1 h.ceiling_le
  exact (wire_eq_ok_iff h.layout).mpr ⟨hd.routing, hd.payload, htotal, rfl⟩

theorem send_of_wire (hsink : s.sink.Patient) (hwire : s.wire routing payload = .ok code) :
    ∃ sink, s.send routing payload = (.ok (), { s with sink }) ∧ sink.bytes = s.sink.bytes ++ code
      ∧ sink.Patient := by
  obtain ⟨hpush, hbytes, hpatient⟩ := hsink.push code
  rcases hcase : s.sink.push code with ⟨result, pushed⟩
  rw [hcase] at hpush hbytes hpatient
  subst hpush
  obtain ⟨later, flushes, hflush, hrepeated⟩ := pushed.flushPlanned_of_repeated hpatient.flushes
  refine ⟨{ pushed with flushPlan := later, flushes }, ?_, hbytes, hpatient.writes, hrepeated⟩
  rw [Sender.send, hwire]
  simp only [hcase, Sender.flush, hflush]

theorem bytes_of_send (h : (s.send routing payload).1 = .ok ()) :
    ∃ code, s.wire routing payload = .ok code ∧ (s.send routing payload).2.sink.bytes = s.sink.bytes ++ code := by
  unfold Sender.send at h ⊢
  cases hwire : s.wire routing payload with
  | error e => simp [hwire] at h
  | ok code =>
    have htakes := s.sink.takes_push code
    rcases hpush : s.sink.push code with ⟨result, sink⟩
    rw [hpush] at htakes
    cases result with
    | error e => simp [hwire, hpush] at h
    | ok =>
      refine ⟨code, rfl, ?_⟩
      simp only [hpush, Sender.flush, Sink.bytes_flushPlanned]
      exact htakes.1

theorem Ready.send (h : s.Ready ceiling) {d : Dispatch} (hd : d.Fits ceiling) :
    ∃ sink, s.send d.routing d.payload = (.ok (), { s with sink }) ∧ sink.bytes = s.sink.bytes ++ d.wire
      ∧ ({ s with sink } : Sender).Ready ceiling := by
  obtain ⟨sink, hsend, hbytes, hpatient⟩ := send_of_wire h.sink (h.wire hd)
  exact ⟨sink, hsend, hbytes, h.layout, h.ceiling_le, hpatient⟩

/-- **All messages that fit are sent**, and the sink has taken their encodings in order. -/
theorem Ready.sendAll (h : s.Ready ceiling) {sends : List Dispatch} (hfits : ∀ d ∈ sends, d.Fits ceiling) :
    ∃ sink, s.sendAll sends = (.ok (), { s with sink }) ∧ sink.bytes = s.sink.bytes ++ sends.flatMap (·.wire) := by
  induction sends generalizing s with
  | nil => exact ⟨s.sink, rfl, (List.append_nil _).symm⟩
  | cons d later ih =>
    obtain ⟨sink, hsend, hbytes, hready⟩ := h.send (hfits d List.mem_cons_self)
    obtain ⟨sink', hall, hbytes'⟩ := ih hready fun d hd => hfits d (List.mem_cons_of_mem _ hd)
    refine ⟨sink', ?_, ?_⟩
    · rw [Sender.sendAll, hsend]
      exact hall
    · rw [hbytes', List.flatMap_cons, ← List.append_assoc, ← hbytes]

end Sender

theorem Framing.decodeAll_wires {sends : List Dispatch} {ceiling : Nat} (remote : String)
    (hfits : ∀ d ∈ sends, d.Fits ceiling) :
    (Framing.mk .standard ceiling).decodeAll remote (sends.flatMap (·.wire))
      = ⟨sends.map fun d => .standard remote d.routing d.payload, [], none⟩ := by
  induction sends with
  | nil => exact decodeAll_of_none (decode_nil (f := ⟨.standard, ceiling⟩) Layout.standard_lawful)
  | cons d later ih =>
    have hd := hfits d List.mem_cons_self
    have hdecode : (Framing.mk .standard ceiling).decode remote _ = _ :=
      decode_standardWire hd.routing hd.total (later.flatMap (·.wire))
    rw [List.flatMap_cons, Dispatch.wire, decodeAll_of_some Layout.standard_lawful hdecode,
      ih fun d hd => hfits d (List.mem_cons_of_mem _ hd)]
    rfl

end MessageWire
