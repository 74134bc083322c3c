import Mathlib
import MessageWire.Proofs.Command.Arguments
import MessageWire.Proofs.Command.Hexadecimal
import MessageWire.Proofs.Command.Replay
import MessageWire.Proofs.Framing.Sending
/-!
# Encoding and then decoding

`encode` writes as many copies of a message as it is asked for, on the standard output or in a file
(`Session.run_encode`), and `decode` prints the payloads of what it reads (`Session.run_decode_copies`). So a payload
that is encoded and then decoded is printed as many times, whatever the size of the receives is
(`Session.decode_of_encode`).
-/

namespace MessageWire

/-- The payload that an option of `encode` gives. What is in a file does not show in the option. -/
def PayloadSource.Gives : PayloadSource → Bytes → Prop
  | .text s, payload => payload = Utf8.encode s
  | .hex digits, payload => Hex.Denotes (Hex.digits digits) payload
  | .file _, _ => False

namespace Machine

variable {m : Machine} {output? : Option String} {data : Bytes}

/-- Messages can be written where they should go: on the standard output, or in a file that can be created. -/
def Takes (m : Machine) (output? : Option String) : Prop := ∀ path, output? = some path → ∃ l, m.Creatable path l

/-- What becomes of a machine when bytes are written where they should go. -/
inductive Stores (m : Machine) (data : Bytes) : Option String → Machine → Prop
  | printed : Stores m data none (m.printing data)
  | filed {path : String} {l : Location} (h : m.Creatable path l) :
      Stores m data (some path) (m.put l (.file data.toArray))

theorem Takes.ne_empty (h : m.Takes output?) : output? ≠ some "" := by
  rintro rfl
  obtain ⟨l, hcreatable⟩ := h "" rfl
  have hlocates := hcreatable.locates
  cases hlocates

theorem Stores.memory_eq {m' : Machine} (h : m.Stores data output? m') : m'.memory = m.memory := by
  cases h with
  | printed => rfl
  | filed _ => rfl

theorem Stores.read_file {m' : Machine} {path : String} (h : m.Stores data (some path) m') :
    m'.read (.file path) = .ok data := by
  cases h with
  | filed h => exact h.read_put data.toArray

end Machine

namespace Session

variable {m : Machine} {source : PayloadSource} {routing : String} {payload wire : Bytes} {copies : Nat}
  {output? : Option String}

/-! ### Encoding -/

theorem withPayload_of_gives (h : source.Gives payload) (next : Bytes → Session) :
    withPayload (some source) next = next payload := by
  cases source with
  | text s => exact congrArg next (Eq.symm h)
  | hex digits =>
    have hdecode : Hex.decode digits = .ok payload := (Hex.decode_eq_ok_iff digits).mpr h
    simp only [withPayload, hdecode]
  | file path => exact h.elim

theorem run_writeCopies {place : Place} (after : Bytes → Machine)
    (hwrite : ∀ done, (after done).write place wire = (none, after (done ++ wire))) (n : Nat) (done : Bytes) :
    (writeCopies place wire n).run (after done)
      = (⟨some exitSuccess, none⟩, after (done ++ (List.replicate n wire).flatten)) := by
  induction n generalizing done with
  | zero =>
    rw [List.replicate_zero, List.flatten_nil, List.append_nil]
    rfl
  | succ n ih =>
    rw [writeCopies, Session.run, hwrite, List.replicate_succ, List.flatten_cons, ← List.append_assoc]
    exact ih (done ++ wire)

theorem run_encode (hgives : source.Gives payload)
    (hwire : ({ sink := {} } : Sender).wire (Utf8.encode routing) payload = .ok wire) (htakes : m.Takes output?) :
    ∃ m', (encode ⟨some source, routing, copies, output?⟩).run m = (⟨some exitSuccess, none⟩, m')
      ∧ m.Stores (List.replicate copies wire).flatten output? m' := by
  rw [encode, withPayload_of_gives hgives]
  cases output? with
  | none =>
    have hwrite (done : Bytes) : (m.printing done).write .standard wire = (none, m.printing (done ++ wire)) :=
      congrArg (none, ·) (m.printing_printing done wire)
    refine ⟨_, ?_, .printed⟩
    have hcopies := run_writeCopies m.printing hwrite copies []
    rw [Machine.printing_nil] at hcopies
    simp only [withOutput, hwire]
    exact hcopies
  | some path =>
    obtain ⟨l, h⟩ := htakes path rfl
    have hwrite (done : Bytes) : (m.put l (.file done.toArray)).write (.file path) wire
        = (none, m.put l (.file (done ++ wire).toArray)) := by
      have hcontents : done.toArray.appendList wire = (done ++ wire).toArray := by
        apply Array.toList_inj.mp
        simp only [Array.appendList_eq_append, Array.toList_appendList]
      rw [h.write_put, hcontents]
    refine ⟨_, ?_, .filed h⟩
    have hcopies := run_writeCopies (fun done => m.put l (.file done.toArray)) hwrite copies []
    simp only [withOutput, Session.run, h.create_eq, hwire]
    exact hcopies

/-- A text that denotes no bytes is refused before anything is written. -/
theorem run_encode_of_no_digits {digits : String} (h : ¬ ∃ payload, Hex.Denotes (Hex.digits digits) payload)
    (m : Machine) :
    ∃ message, (encode ⟨some (.hex digits), routing, copies, output?⟩).run m
      = (⟨some exitUsage, some message⟩, m) := by
  obtain ⟨f, hf⟩ := (Hex.decode_error_iff digits).mpr (mt Hex.exists_denotes_iff.mpr h)
  refine ⟨f.message, ?_⟩
  simp only [encode, withPayload, hf]
  rfl

/-! ### Decoding -/

theorem found_copies {o : DecodeOptions} {d : Dispatch} (hfits : d.Fits o.maxMessageSize) (copies : Nat) :
    found o (List.replicate copies d.wire).flatten
      = ⟨List.replicate copies (.standard o.peer d.routing d.payload), [], none⟩ := by
  have hwires : (List.replicate copies d).flatMap (·.wire) = (List.replicate copies d.wire).flatten := by
    rw [List.flatMap_def, List.map_replicate]
  have hall : ∀ e ∈ List.replicate copies d, e.Fits o.maxMessageSize := by
    intro e he
    rw [List.eq_of_mem_replicate he]
    exact hfits
  rw [← hwires, found, Framing.decodeAll_wires o.peer hall, List.map_replicate]

/-- Copies of a message are decoded to as many copies of its payload. -/
theorem run_decode_copies {args : List String} {o : DecodeOptions} {format? : Option ListingFormat}
    {default : ListingFormat} {d : Dispatch} (hparse : Arguments.parse args = .ok ⟨.decode o, format?⟩)
    (hraw : format?.getD default = .raw) (hstrict : o.strict = false)
    (hchunk : o.chunkSize ≤ min m.memory maxCapacity) (hfits : d.Fits o.maxMessageSize) (hcopies : 1 ≤ copies)
    (hread : m.read (if o.input = "-" then .standard else .file o.input) = .ok (List.replicate copies d.wire).flatten) :
    (ofArguments args default).run m
      = (⟨some exitSuccess, none⟩, m.printing (List.replicate copies d.payload).flatten) := by
  obtain ⟨assembled, error?, hnone, hrun⟩ := run_ofArguments_decode default hparse hstrict hchunk hread
  have hnonempty : (List.replicate copies d.wire).flatten ≠ [] := by
    have hwire : d.wire.length = Layout.standardMinimum + d.routing.length + d.payload.length :=
      Layout.length_standardWire
    obtain ⟨n, rfl⟩ := Nat.exists_eq_add_of_le' hcopies
    intro hnil
    have hlength := congrArg List.length hnil
    rw [List.replicate_succ, List.flatten_cons, List.length_append, hwire, Layout.standardMinimum,
      List.length_nil] at hlength
    omega
  rw [found_copies hfits] at hnone hrun
  rw [hrun, hraw, hnone ⟨hnonempty, rfl⟩, Listed.bytes_raw, if_pos ⟨hnonempty, rfl⟩, List.flatMap_def,
    List.map_replicate]
  rfl

/-! ### Both together -/

/-- **What is encoded is decoded to what was given**, as often as it was written. Text that denotes no bytes is refused.
-/
theorem decode_of_encode :
    (∀ (source : PayloadSource) (routing : String) (payload : Bytes) (copies : Nat) (output? : Option String)
        (m : Machine), source.Gives payload → (Utf8.encode routing).length ≤ 65535 →
        10 + (Utf8.encode routing).length + payload.length ≤ 134217728 → 1 ≤ copies → m.Takes output? →
      ∃ wire, Layout.standard.encodeMessage (Utf8.encode routing) payload = .ok wire ∧
        let capture := (List.replicate copies wire).flatten
        (copies ≤ maxWord → Arguments.parse (Arguments.encodeArguments source routing copies output?)
          = .ok ⟨.encode ⟨some source, routing, copies, output?⟩, none⟩)
        ∧ (∀ args format? default,
          Arguments.parse args = .ok ⟨.encode ⟨some source, routing, copies, output?⟩, format?⟩ →
            ∃ m', (ofArguments args default).run m = (⟨some 0, none⟩, m') ∧ m.Stores capture output? m'
              ∧ ∀ path, output? = some path → m'.read (.file path) = .ok capture)
        ∧ (∀ chunkSize, 1 ≤ chunkSize → chunkSize ≤ maxWord →
          Arguments.parse (Arguments.decodeArguments chunkSize)
          = .ok ⟨.decode ⟨"-", chunkSize, 134217728, "capture", false⟩, some .raw⟩)
        ∧ (∀ args o format? default m, Arguments.parse args = .ok ⟨.decode o, format?⟩ →
          format?.getD default = .raw →
          o.strict = false → 134217728 ≤ o.maxMessageSize → o.chunkSize ≤ min m.memory maxCapacity →
          m.read (if o.input = "-" then .standard else .file o.input) = .ok capture →
            (ofArguments args default).run m
              = (⟨some 0, none⟩, m.printing (List.replicate copies payload).flatten)))
    ∧ ∀ digits : String,
      ((∃ payload, Hex.Denotes (Hex.digits digits) payload)
        ↔ (Hex.digits digits).length % 2 = 0 ∧ ∀ c ∈ Hex.digits digits, (Hex.value? c).isSome)
      ∧ (∀ payload, Hex.decode digits = .ok payload ↔ Hex.Denotes (Hex.digits digits) payload)
      ∧ ((¬ ∃ payload, Hex.Denotes (Hex.digits digits) payload) →
        ∀ args routing copies output? format? default m,
          Arguments.parse args = .ok ⟨.encode ⟨some (.hex digits), routing, copies, output?⟩, format?⟩ →
            ∃ message, (ofArguments args default).run m = (⟨some 64, some message⟩, m)) := by
  refine ⟨fun source routing payload copies output? m hgives hrouting hsize hcopies htakes => ?_, fun digits =>
    ⟨Hex.exists_denotes_iff, fun payload => Hex.decode_eq_ok_iff digits, fun hnone args routing copies output? format?
      default m hparse => ?_⟩⟩
  · have hpayload : payload.length ≤ maxPayload := by
      unfold maxPayload
      omega
    have hwire : ({ sink := {} } : Sender).wire (Utf8.encode routing) payload = .ok _ :=
      (Sender.wire_eq_ok_iff rfl).mpr ⟨hrouting, hpayload, hsize, rfl⟩
    refine ⟨_, Layout.encodeMessage_standard hrouting hpayload, fun hmax => ?_, fun args format? default hparse => ?_,
      fun chunkSize hpos hmax => Arguments.parse_decodeArguments hpos hmax,
      fun args o format? default m hparse hraw hstrict hceiling hchunk hread => ?_⟩
    · have hsource : source ≠ .file "" := by
        rintro rfl
        exact hgives
      exact Arguments.parse_encodeArguments routing hsource hmax htakes.ne_empty
    · obtain ⟨m', hrun, hstores⟩ := run_encode hgives hwire htakes
      refine ⟨m', ?_, hstores, ?_⟩
      · rw [ofArguments_of_parse default hparse, ofCommand]
        exact hrun
      · rintro path rfl
        exact hstores.read_file
    · have hfits : Dispatch.Fits ⟨Utf8.encode routing, payload⟩ o.maxMessageSize :=
        ⟨hrouting, Nat.le_min.mpr ⟨Nat.le_trans hsize hceiling, Nat.le_trans hsize (by decide)⟩⟩
      exact run_decode_copies hparse hraw hstrict hchunk hfits hcopies hread
  · rw [ofArguments_of_parse default hparse, ofCommand]
    exact run_encode_of_no_digits hnone m

/-- Three copies in a file, of a payload whose digits are torn apart, received five bytes at a time; and digits that are
none. -/
theorem decode_of_encode_in_file :
    let m := Machine.ofFiles 5 [] []
    let encoding := ["encode", "--hex", "6 86\n9", "--routing", "r", "--repeat", "3", "--output", "a"]
    let decoding := ["decode", "a", "--chunk-size", "5", "--format", "raw"]
    (∃ m', (ofArguments encoding .json).run m = (⟨some 0, none⟩, m')
      ∧ (ofArguments decoding .json).run m' = (⟨some 0, none⟩, m'.printing [104, 105, 104, 105, 104, 105]))
    ∧ ∃ message, (ofArguments ["encode", "--hex", "0g"] .json).run m = (⟨some 64, some message⟩, m) := by
  intro m encoding decoding
  have hgives : (PayloadSource.hex "6 86\n9").Gives [104, 105] :=
    (Hex.decode_eq_ok_iff _).mp (by decide +kernel)
  have htakes : m.Takes (some "a") := by
    rintro path ⟨⟩
    have hnames : Machine.names "a" = .ok ["a"] := by cbv
    refine ⟨["tmp", "work", "a"], ?_, .inl ?_⟩
    · rw [Machine.locateNew, hnames]
      decide +kernel
    · decide +kernel
  obtain ⟨wire, -, -, hencode, -, hdecode⟩ :=
    decode_of_encode.1 _ "r" _ 3 _ m hgives (by decide +kernel) (by decide +kernel) (by decide) htakes
  obtain ⟨m', hrun, hstores, hread⟩ := hencode encoding none .json (by decide +kernel)
  have hmemory : 5 ≤ min m'.memory maxCapacity := by
    rw [hstores.memory_eq]
    decide
  have hdecoded := hdecode decoding ⟨"a", 5, 134217728, "capture", false⟩ (some .raw) .json m'
    (by decide +kernel) rfl rfl (by decide) hmemory (hread "a" rfl)
  have hnone : ¬ ∃ payload, Hex.Denotes (Hex.digits "0g") payload := by
    rw [(decode_of_encode.2 "0g").1]
    rintro ⟨-, hall⟩
    have hg := hall 'g' (by decide +kernel)
    exact absurd hg (by decide)
  exact ⟨⟨m', hrun, hdecoded⟩,
    (decode_of_encode.2 "0g").2.2 hnone ["encode", "--hex", "0g"] "" 1 none none .json m (by decide +kernel)⟩

/-- Receives of a size that no buffer can have, whatever the memory: the encoding of a payload is not decoded, and
nothing is printed. -/
theorem no_decode_of_encode_in_huge_receives :
    let capture : Bytes := [2, 0, 0, 0, 0xa7, 0xa5, 0xa5, 0xa5, 0, 0, 104, 105]
    let decoding := ["decode", "-", "--chunk-size", "9223372036854775808", "--format", "raw"]
    let m : Machine := { memory := 0xffffffffffffffff, input := capture }
    (ofArguments ["encode", "--data", "hi"] .json).run m = (⟨some 0, none⟩, m.printing capture)
      ∧ (∃ o, Arguments.parse decoding = .ok ⟨.decode o, some .raw⟩ ∧ 1 ≤ o.chunkSize)
      ∧ (ofArguments decoding .json).run m = (⟨some 101, none⟩, m) := by
  intro capture decoding m
  have hencode : Arguments.parse ["encode", "--data", "hi"]
    = .ok ⟨.encode ⟨some (.text "hi"), "", 1, none⟩, none⟩ := by
    decide +kernel
  have hdecode : Arguments.parse decoding
      = .ok ⟨.decode ⟨"-", 9223372036854775808, 134217728, "capture", false⟩, some .raw⟩ := by
    decide +kernel
  refine ⟨?_, ⟨_, hdecode, by decide⟩, ?_⟩
  · have hwire : ({ sink := {} } : Sender).wire (Utf8.encode "") (Utf8.encode "hi") = .ok capture := by decide +kernel
    rw [ofArguments, hencode]
    simp only [ofCommand, encode, withPayload, withOutput, hwire]
    rfl
  · rw [ofArguments, hdecode]
    rfl

end Session

end MessageWire
