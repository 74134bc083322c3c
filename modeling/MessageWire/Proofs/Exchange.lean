import MessageWire.Proofs.Catalog.Coding
import MessageWire.Proofs.Framing.Reception
import MessageWire.Proofs.Framing.Sending
/-!
# From a sender to a receiver

What is sent through a patient sink is received from a steady source with the same bytes: every message once, in
order, and then the end of the stream (`Receiver.Waiting.answers_of_steady`). A value is the payload of a message to
both sides, so values come out as they went in (`Receiver.hands_of_answers`). `Receiver.answers_of_sends` is both in
one.
-/

namespace MessageWire

namespace Receiver

variable {r : Receiver} {capacity : Nat}

/-! ### Receiving from a steady source -/

theorem answers_succ (r : Receiver) (n : Nat) : (r.answers (n + 1)).1 = r.next.1 :: (r.next.2.answers n).1 := rfl

theorem length_answers (r : Receiver) (n : Nat) : (r.answers n).1.length = n := by
  induction n generalizing r with
  | zero => rfl
  | succ n ih => rw [answers_succ, List.length_cons, ih]

/-- A steady source that ends behind a message gives its messages, and then tells that it has ended. -/
theorem Waiting.answers_of_steady (h : r.Waiting capacity []) (hpos : 0 < capacity) (hsteady : r.source.Steady)
    {ms : List Message} (hall : r.assembler.framing.decodeAll r.assembler.remote r.source.left = ⟨ms, [], none⟩) :
    (r.answers (ms.length + 1)).1 = ms.map .ok ++ [.error .closed] := by
  obtain ⟨last, used, delivered, hcourse, hend⟩ := h.decodes hpos
  obtain ⟨n, told, hanswers, hfailures, hresults⟩ := hcourse.answers
  rw [List.nil_append] at hresults hend
  have hleft := hcourse.left
  have hnone : (r.assembler.framing.decodeAll r.assembler.remote delivered).error? = none := by
    cases herror : (r.assembler.framing.decodeAll r.assembler.remote delivered).error? with
    | none => rfl
    | some e =>
      have hlater := Framing.decodeAll_append_of_error h.assembler.lawful delivered last.source.left herror
      rw [← hleft, hall] at hlater
      cases hlater.2
  rw [(hend hnone).1, List.append_nil] at hleft
  have hending : r.assembler.framing.ending r.assembler.remote ⟨ms, [], none⟩ = .closed := rfl
  rw [← hleft, hall, hending] at hresults
  -- No read fails for good, so the answers are the messages and their end.
  have htold : told.filter (fun answer => (ioError? answer).isNone) = told := by
    rw [hsteady.failures_of_plan hcourse.plan] at hfailures
    apply List.filter_eq_self.mpr
    intro answer hanswer
    rw [List.filterMap_eq_nil_iff.mp hfailures answer hanswer]
    rfl
  have hcount := r.length_answers (n + 1)
  rw [hanswers, ← htold, hresults, List.length_append, List.length_map, List.length_singleton] at hcount
  rw [hcount, hanswers, ← htold, hresults]

/-! ### Catalogs do not matter to messages -/

def withCatalog (r : Receiver) (c : Catalog) : Receiver := { r with catalog := c }

theorem prepare_withCatalog (r : Receiver) (c : Catalog) :
    (r.withCatalog c).prepare = match r.prepare with
      | .error (answer, r') => .error (answer, r'.withCatalog c)
      | .ok capacity => .ok capacity := by
  obtain ⟨source, assembler, catalog, ready, deferred⟩ := r
  cases ready with
  | cons m rest => rfl
  | nil =>
    cases deferred with
    | some e => rfl
    | none =>
      simp only [prepare, withCatalog]
      cases assembler.scratch with
      | error e => rfl
      | ok scratch => rfl

theorem finish_withCatalog (r : Receiver) (c : Catalog) :
    (r.withCatalog c).finish = (r.finish.1, r.finish.2.withCatalog c) := by
  by_cases hidle : r.assembler.pending.length = 0
  · simp [finish, withCatalog, hidle]
  · simp [finish, withCatalog, hidle]

theorem next_withCatalog (r : Receiver) (c : Catalog) :
    (r.withCatalog c).next = (r.next.1, r.next.2.withCatalog c) := by
  have hprepare := r.prepare_withCatalog c
  fun_induction Receiver.next r with
  | case1 r answer h =>
    rw [h] at hprepare
    rw [next, hprepare]
  | case2 r capacity h source hread ih =>
    rw [h] at hprepare
    rw [next_of_interrupted (r := r.withCatalog c) hprepare hread]
    exact ih (prepare_withCatalog { r with source } c)
  | case3 r capacity h e source he hread =>
    rw [h] at hprepare
    rw [next_of_io (r := r.withCatalog c) hprepare he hread]
    rfl
  | case4 r capacity h source hread e r' hfinish =>
    rw [h] at hprepare
    have hend := finish_withCatalog { r with source } c
    rw [hfinish] at hend
    rw [next_of_end (r := r.withCatalog c) hprepare hread]
    exact congrArg (fun ended : MessageError × Receiver => (Except.error ended.1, ended.2)) hend
  | case5 r capacity h b bs source hread ih =>
    rw [h] at hprepare
    rw [next_of_data (r := r.withCatalog c) hprepare (List.cons_ne_nil _ _) hread]
    exact ih (prepare_withCatalog (r.take (b :: bs) source) c)

theorem answers_withCatalog (r : Receiver) (c : Catalog) (n : Nat) :
    ((r.withCatalog c).answers n).1 = (r.answers n).1 := by
  induction n generalizing r with
  | zero => rfl
  | succ n ih =>
    rw [answers_succ, answers_succ, r.next_withCatalog c]
    exact congrArg _ (ih r.next.2)

theorem catalog_next (r : Receiver) : r.next.2.catalog = r.catalog := by
  have hnext := r.next_withCatalog r.catalog
  change r.next = _ at hnext
  rw [hnext]
  rfl

end Receiver

/-! ### Values -/

/-- A value to be sent, with its routing. -/
structure Parcel where
  routing : Bytes
  type : Ty
  value : type.Value

/-- The bytes of the value, as far as the catalog finds any. -/
def Parcel.payload (c : Catalog) (p : Parcel) : Bytes :=
  match (c.toBytes p.type p.value).1 with
  | .ok payload => payload
  | .error _ => []

def Parcel.dispatch (c : Catalog) (p : Parcel) : Dispatch := ⟨p.routing, p.payload c⟩

/-- Sends one value after the other, until one is not sent. -/
def Sender.sendValues (s : Sender) (c : Catalog) : List Parcel → Except MessageError Unit × Sender × Catalog
  | [] => (.ok (), s, c)
  | p :: later =>
    match s.sendValue c p.routing p.type p.value with
    | (.error e, s', c') => (.error e, s', c')
    | (.ok (), s', c') => s'.sendValues c' later

/-- The receiver's next values, asked for by their types, are those of the parcels, and then the stream has ended. -/
def Receiver.Hands (r : Receiver) : List Parcel → Prop
  | [] => r.next.1 = .error .closed
  | p :: later =>
    ∃ v, (r.nextValue p.type).1 = .ok v ∧ p.type.Same p.value v ∧ (r.nextValue p.type).2.Hands later

variable {within : StagingLimits → Prop}

namespace Catalog

variable {c : Catalog}

theorem Stock.withFormat_afterLookup (h : c.Stock within) (t t' : Ty) {α : Type}
    (act : Format t'.Value → Except ValueError α) :
    ((c.afterLookup t).withFormat t' act).1 = (c.withFormat t' act).1 := by
  change ((c.afterLookup t).resolve t').1.bind act = (c.resolve t').1.bind act
  rw [h.resolve_afterLookup]

theorem Stock.toBytes_afterLookup (h : c.Stock within) (t t' : Ty) (v : t'.Value) :
    ((c.afterLookup t).toBytes t' v).1 = (c.toBytes t' v).1 := h.withFormat_afterLookup t t' _

theorem Stock.fromBytes_afterLookup (h : c.Stock within) (t t' : Ty) (src : Bytes) :
    ((c.afterLookup t).fromBytes t' src).1 = (c.fromBytes t' src).1 := h.withFormat_afterLookup t t' _

theorem Stock.payload_afterLookup (h : c.Stock within) (t : Ty) (p : Parcel) :
    p.payload (c.afterLookup t) = p.payload c := by
  rw [Parcel.payload, h.toBytes_afterLookup, Parcel.payload]

end Catalog

theorem Sender.sendValues_eq_sendAll {c : Catalog} (hc : c.Stock within) (s : Sender) {parcels : List Parcel}
    (hbytes : ∀ p ∈ parcels, (c.toBytes p.type p.value).1 = .ok (p.payload c)) :
    ((s.sendValues c parcels).1, (s.sendValues c parcels).2.1) = s.sendAll (parcels.map (·.dispatch c)) := by
  induction parcels generalizing s c with
  | nil => rfl
  | cons p later ih =>
    have hfirst : c.toBytes p.type p.value = (.ok (p.payload c), c.afterLookup p.type) :=
      Prod.ext (hbytes p List.mem_cons_self) rfl
    have hbytes' : ∀ q ∈ later,
        ((c.afterLookup p.type).toBytes q.type q.value).1 = .ok (q.payload (c.afterLookup p.type)) := by
      intro q hq
      rw [hc.toBytes_afterLookup, hc.payload_afterLookup, hbytes q (List.mem_cons_of_mem _ hq)]
    have hdispatch : later.map (·.dispatch (c.afterLookup p.type)) = later.map (·.dispatch c) := by
      apply List.map_congr_left
      intro q hq
      rw [Parcel.dispatch, hc.payload_afterLookup, Parcel.dispatch]
    rw [sendValues, sendValue, hfirst, List.map_cons, sendAll, Parcel.dispatch]
    simp only
    obtain ⟨_ | _, s'⟩ := s.send p.routing (p.payload c)
    · rfl
    · have hlater := ih (hc.afterLookup p.type) s' hbytes'
      rwa [hdispatch] at hlater

namespace Receiver

variable {r : Receiver} {t : Ty} {m : Message}

theorem nextValue_of_next (h : r.next.1 = .ok m) :
    r.nextValue t = (((r.catalog.fromBytes t m.payload).1).mapError .value,
      r.next.2.withCatalog (r.catalog.afterLookup t)) := by
  have hcatalog := r.catalog_next
  rcases hnext : r.next with ⟨answer, r'⟩
  rw [hnext] at h hcatalog
  subst h
  rw [nextValue, hnext, ← hcatalog]
  rfl

/-- **Values come out as they went in**, if the messages do. -/
theorem hands_of_answers {remote : String} {c : Catalog} (hc : r.catalog.Stock within) {parcels : List Parcel}
    (hback : ∀ p ∈ parcels, ∃ w, p.type.Same p.value w ∧ (r.catalog.fromBytes p.type (p.payload c)).1 = .ok w)
    (hanswers : (r.answers (parcels.length + 1)).1
      = parcels.map (fun p => .ok (.standard remote p.routing (p.payload c))) ++ [.error .closed]) :
    r.Hands parcels := by
  induction parcels generalizing r with
  | nil =>
    rw [answers_succ] at hanswers
    exact (List.cons.inj hanswers).1
  | cons p later ih =>
    rw [List.length_cons, answers_succ, List.map_cons, List.cons_append] at hanswers
    obtain ⟨hnext, hlater⟩ := List.cons.inj hanswers
    obtain ⟨w, hsame, hvalue⟩ := hback p List.mem_cons_self
    have hfirst := nextValue_of_next (t := p.type) hnext
    refine ⟨w, ?_, hsame, ?_⟩
    · rw [hfirst]
      change Except.mapError _ (r.catalog.fromBytes p.type (p.payload c)).1 = _
      rw [hvalue]
      rfl
    · rw [hfirst]
      apply ih (hc.afterLookup p.type)
      · intro q hq
        obtain ⟨w', hsame', hvalue'⟩ := hback q (List.mem_cons_of_mem _ hq)
        exact ⟨w', hsame', (hc.fromBytes_afterLookup _ _ _).trans hvalue'⟩
      · rw [answers_withCatalog]
        exact hlater

end Receiver

/-! ### Both sides -/

theorem Dispatch.Fits.mono {d : Dispatch} {ceiling ceiling' : Nat} (h : d.Fits ceiling) (hle : ceiling ≤ ceiling') :
    d.Fits ceiling' := by
  have htotal := h.total
  exact ⟨h.routing, by omega⟩

/-- The value has bytes that fit a message, and the receiver's format makes of bytes what the sender's does. -/
structure Parcel.Fits (p : Parcel) (ceiling : Nat) (sender receiver : Catalog) : Prop where
  payload : ∃ payload, (sender.toBytes p.type p.value).1 = .ok payload
    ∧ (Dispatch.mk p.routing payload).Fits ceiling
  format : ∃ f g, (sender.resolve p.type).1 = .ok f ∧ (receiver.resolve p.type).1 = .ok g ∧ g.read = f.read

namespace Parcel

variable {p : Parcel} {ceiling : Nat} {c catalog : Catalog}

theorem Fits.toBytes (h : p.Fits ceiling c catalog) : (c.toBytes p.type p.value).1 = .ok (p.payload c) := by
  obtain ⟨payload, hbytes, -⟩ := h.payload
  rw [Parcel.payload, hbytes]

theorem Fits.dispatch (h : p.Fits ceiling c catalog) : (p.dispatch c).Fits ceiling := by
  obtain ⟨payload, hbytes, hfits⟩ := h.payload
  rw [Parcel.dispatch, Parcel.payload, hbytes]
  exact hfits

theorem fits_dispatches {parcels : List Parcel} (h : ∀ p ∈ parcels, p.Fits ceiling c catalog) :
    ∀ d ∈ parcels.map (·.dispatch c), d.Fits ceiling := by
  intro d hd
  obtain ⟨p, hp, rfl⟩ := List.mem_map.mp hd
  exact (h p hp).dispatch

theorem Fits.fromBytes (h : p.Fits ceiling c catalog) (hc : c.Stock within) :
    ∃ w, p.type.Same p.value w ∧ (catalog.fromBytes p.type (p.payload c)).1 = .ok w := by
  obtain ⟨f, g, hf, hg, hread⟩ := h.format
  have hbytes := h.toBytes
  rw [Catalog.toBytes_of_resolve hf] at hbytes
  obtain ⟨w, hsame, hback⟩ := (hc.of_resolve hf).readsBack_of_toBytes hbytes
  have hback' : g.ReadsBack (p.payload c) w := fun s => by rw [hread, hback s]
  exact ⟨w, hsame, (Catalog.fromBytes_of_resolve hg _).trans (hback'.fromBytes _)⟩

end Parcel

namespace Receiver

/-- A new receiver answers with what was sent, if the bytes of its source are those of the messages. -/
theorem answers_of_wires {source : Source} {settings : AssemblerSettings} (remote : String) (catalog : Catalog)
    (hsource : source.Steady) (hpartial : settings.allowPartial = true) {sends : List Dispatch}
    (hfits : ∀ d ∈ sends, d.Fits settings.maxMessageSize) (hleft : source.left = sends.flatMap (·.wire)) :
    let r : Receiver := { source, assembler := .ofSettings .standard remote settings, catalog }
    (r.answers (sends.length + 1)).1
      = sends.map (fun d => .ok (.standard remote d.routing d.payload)) ++ [.error .closed] := by
  intro r
  have hstorage : r.assembler.storage = .ready { capacity := max settings.scratchCapacity 1 } := rfl
  have hholding := Assembler.holding_of_idle (a := r.assembler) rfl hpartial hstorage rfl
  have hwaiting : r.Waiting (max settings.scratchCapacity 1) [] := ⟨rfl, rfl, hholding, hsource.giving⟩
  have hall : r.assembler.framing.decodeAll r.assembler.remote r.source.left
      = ⟨sends.map fun d => .standard remote d.routing d.payload, [], none⟩ := by
    change (Framing.mk .standard settings.maxMessageSize).decodeAll remote source.left = _
    rw [hleft]
    exact Framing.decodeAll_wires remote hfits
  have hanswers := hwaiting.answers_of_steady (by omega) hsource hall
  rwa [List.length_map, List.map_map] at hanswers

/-- **Whatever is sent is received exactly once**, through a patient sink and from a steady source, and then the stream
has ended. Messages that carry values give these values. -/
theorem answers_of_sends (sink : Sink) (maxSent : Nat) (source : Source) (remote : String)
    (settings : AssemblerSettings) (hsink : sink.Patient) (hsource : source.Steady)
    (hpartial : settings.allowPartial = true) :
    let s : Sender := { sink, maxMessageSize := maxSent }
    let r (catalog : Catalog) : Receiver := { source, assembler := .ofSettings .standard remote settings, catalog }
    let ceiling := min maxSent settings.maxMessageSize
    (∀ sends : List Dispatch, (∀ d ∈ sends, d.Fits ceiling) →
      (s.sendAll sends).1 = .ok ()
        ∧ ((s.sendAll sends).2.sink.bytes = sink.bytes ++ source.left → ∀ catalog,
          ((r catalog).answers (sends.length + 1)).1
            = sends.map (fun d => .ok (.standard remote d.routing d.payload)) ++ [.error .closed]))
    ∧ ∀ c catalog : Catalog, c.Reachable → catalog.Reachable →
      ∀ parcels : List Parcel, (∀ p ∈ parcels, p.Fits ceiling c catalog) →
        (s.sendValues c parcels).1 = .ok ()
          ∧ ((s.sendValues c parcels).2.1.sink.bytes = sink.bytes ++ source.left → (r catalog).Hands parcels) := by
  intro s r ceiling
  have hready : s.Ready ceiling := ⟨rfl, Nat.min_le_left _ _, hsink⟩
  have hmessages (sends : List Dispatch) (hfits : ∀ d ∈ sends, d.Fits ceiling) :
      (s.sendAll sends).1 = .ok ()
        ∧ ((s.sendAll sends).2.sink.bytes = sink.bytes ++ source.left → ∀ catalog,
          ((r catalog).answers (sends.length + 1)).1
            = sends.map (fun d => .ok (.standard remote d.routing d.payload)) ++ [.error .closed]) := by
    obtain ⟨sink', hsend, hbytes⟩ := hready.sendAll hfits
    rw [hsend]
    refine ⟨rfl, fun hleft catalog => ?_⟩
    have hfits' : ∀ d ∈ sends, d.Fits settings.maxMessageSize :=
      fun d hd => (hfits d hd).mono (Nat.min_le_right _ _)
    exact answers_of_wires remote catalog hsource hpartial hfits' (List.append_cancel_left (hleft.symm.trans hbytes))
  refine ⟨hmessages, fun c catalog hc hcatalog parcels hfits => ?_⟩
  have hall := s.sendValues_eq_sendAll hc.stock fun p hp => (hfits p hp).toBytes
  obtain ⟨hsent, hreceived⟩ := hmessages _ (Parcel.fits_dispatches hfits)
  rw [← hall] at hsent hreceived
  refine ⟨hsent, fun hleft => ?_⟩
  have hanswers := hreceived hleft catalog
  rw [List.length_map, List.map_map] at hanswers
  exact hands_of_answers hcatalog.stock (fun p hp => (hfits p hp).fromBytes hc.stock) hanswers

/-- Three bytes and two words, from a sink that takes its time to a stream that comes in pieces. The receiver stages in
pieces, too. -/
theorem answers_of_sends_in_pieces :
    let c := Catalog.ofSettings {}
    let catalog := Catalog.ofSettings { staging := { poolThreshold := 0, maxBufferSize := 3 } }
    let parcels : List Parcel := [⟨[7], .bytes, [4, 5, 6]⟩, ⟨[], .collection .deque (.scalar .u16), [1, 2]⟩]
    let sink : Sink :=
      { plan := [.give 3, .fail .wouldBlock, .pending, .give 1, .fail .interrupted], flushPlan := [.fail .wouldBlock] }
    let stream : Bytes := [5, 0, 0, 0, 0xa0, 0xa5, 0xa5, 0xa5, 1, 0, 7, 1, 3, 4, 5, 6,
      6, 0, 0, 0, 0xa3, 0xa5, 0xa5, 0xa5, 0, 0, 1, 2, 1, 0, 2, 0]
    let source : Source := ⟨stream, [.give 1, .fail .interrupted, .give 14, .pending, .give 3]⟩
    let r : Receiver := ⟨source, .ofSettings .standard "peer" {}, catalog, [], none⟩
    sink.Patient ∧ source.Steady ∧ (Sender.sendValues { sink } c parcels).1 = .ok () ∧ r.Hands parcels := by
  intro c catalog parcels sink stream source r
  have hsink : sink.Patient :=
    ⟨⟨by simp [sink], by simp [sink, IoError.Repeated]⟩, by simp [sink, IoError.Repeated]⟩
  have hsource : source.Steady := ⟨by simp [Source.Giving, source], by simp [source]⟩
  have hfits : ∀ p ∈ parcels, p.Fits (min 134217728 134217728) c catalog := by
    intro p hp
    simp only [parcels, List.mem_cons, List.not_mem_nil, or_false] at hp
    obtain rfl | rfl := hp
    · exact ⟨⟨[1, 3, 4, 5, 6], by with_unfolding_all rfl, by decide, by decide⟩, _, _, rfl, rfl, rfl⟩
    · exact ⟨⟨[1, 2, 1, 0, 2, 0], by with_unfolding_all rfl, by decide, by decide⟩, _, _, rfl, rfl, rfl⟩
  obtain ⟨hsent, hreceived⟩ :=
    (answers_of_sends sink 134217728 source "peer" {} hsink hsource rfl).2 c catalog (.new _) (.new _) parcels hfits
  have hbytes : (Sender.sendValues { sink } c parcels).2.1.sink.bytes = sink.bytes ++ stream := by
    have hall := Sender.sendValues_eq_sendAll (Catalog.Reachable.new _).stock { sink } fun p hp => (hfits p hp).toBytes
    have hready : Sender.Ready { sink } (min 134217728 134217728) := ⟨rfl, Nat.min_le_left _ _, hsink⟩
    obtain ⟨sink', hsend, hwire⟩ := hready.sendAll (Parcel.fits_dispatches hfits)
    have hstream : (parcels.map (·.dispatch c)).flatMap (·.wire) = stream := by decide +kernel
    rw [(Prod.mk.inj (hall.trans hsend)).2, hwire, hstream]
  exact ⟨hsink, hsource, hsent, hreceived hbytes⟩

end Receiver

end MessageWire
