import MessageWire.Command.Run
import MessageWire.Proofs.Command.Characters
import MessageWire.Proofs.Command.Files
import MessageWire.Proofs.Framing.Insertion
/-!
# Replays of captures

`decode` replays a capture in receives of some size. What it lists are the messages that the decoder takes off the
front of the capture, and its exit code tells whether the capture was made of whole messages
(`Session.decode_exact`). The size of the receives shows only in what the listing tells of how each message was put
together.
-/

namespace MessageWire

/-! ### Lines -/

namespace Text

end Text

namespace Listed

/-- Messages with their places, and how each was put together. -/
def place (messages : List Message) (assembled : Nat → Bool) : List Listed :=
  messages.mapIdx fun i m => ⟨i, m, assembled i⟩

theorem bytes_raw (messages : List Message) (assembled : Nat → Bool) :
    bytes .raw (place messages assembled) = messages.flatMap (·.payload) := by
  have hmessages : (place messages assembled).map (·.message) = messages := by
    refine List.ext_getElem? fun i => ?_
    rw [List.getElem?_map, place, List.getElem?_mapIdx, Option.map_map]
    exact Option.map_id'
  calc bytes .raw (place messages assembled)
      = ((place messages assembled).map (·.message)).flatMap (·.payload) := (List.flatMap_map ..).symm
    _ = messages.flatMap (·.payload) := by rw [hmessages]

end Listed

/-! ### Ends of replays -/

theorem Framing.fault_of_decodeAll {f : Framing} (hl : f.layout.Lawful) {remote : String} {w : Bytes} {e : MessageError}
    (h : (f.decodeAll remote w).error? = some e) : (f.decodeAll remote w).rest ≠ [] ∧ e.exitCode = exitData := by
  have hfault := decode_rest_decodeAll hl remote w
  rw [h] at hfault
  constructor
  · intro hnil
    rw [hnil, decode_nil hl] at hfault
    cases hfault
  · obtain ⟨payload, check, expected, rfl⟩ | ⟨payload, overhead, rfl⟩ | ⟨size, rfl⟩ :=
      measure_eq_error (measure_of_decode_error hfault)
    all_goals rfl

namespace Session

variable {o : DecodeOptions}

def found (o : DecodeOptions) (capture : Bytes) : Framing.Unframed :=
  (Framing.mk .standard o.maxMessageSize).decodeAll o.peer capture

theorem storage_replayer (o : DecodeOptions) :
    (replayer o).storage = .ready { capacity := max o.chunkSize 1 } := rfl

theorem holding_replayer (hstrict : o.strict = false) : (replayer o).Holding (max o.chunkSize 1) [] := by
  have hpartial : (replayer o).settings.allowPartial = true := by
    show (!o.strict) = true
    rw [hstrict]
    rfl
  exact Assembler.holding_of_idle rfl hpartial (storage_replayer o) rfl

/-- A replay gives out what the decoder finds, and ends as the decoder does, but that no bytes at all are an error. -/
theorem replay_exact (hstrict : o.strict = false) (capture : Bytes) :
    let replay := (replayer o).feed capture
    let u := found o capture
    replay.deliveries.map (·.message) = u.messages
      ∧ (capture = [] → replay.result = .error (.tooShort 0 Layout.standardMinimum))
      ∧ (capture ≠ [] → replay.result = u.result)
      ∧ (u.error? = none → (replay.assembler.state = .idle ↔ u.rest = [])) := by
  have hheld := holding_replayer hstrict
  by_cases hnil : capture = []
  · -- A replay of nothing is one receive of no bytes, which an idle assembler refuses.
    subst hnil
    have hreplay := Assembler.processAt_zero (storage_replayer o) (Nat.zero_le _)
    have hfound : found o [] = ⟨[], [], none⟩ :=
      Framing.decodeAll_of_none (Framing.decode_nil Layout.standard_lawful)
    rw [Assembler.feed_nil, hreplay, hfound]
    exact ⟨rfl, fun _ => rfl, fun hne => absurd rfl hne, fun _ => ⟨fun _ => rfl, fun _ => rfl⟩⟩
  · obtain ⟨hresult, hmessages, hkept⟩ := hheld.feed (Nat.lt_of_lt_of_le Nat.one_pos (Nat.le_max_right _ _)) hnil
    rw [List.nil_append] at hresult hmessages hkept
    exact ⟨hmessages, fun h => absurd h hnil, fun _ => hresult, fun hok => (hkept hok).shows.idle⟩

/-- The exit code tells whether the capture was made of whole messages. There is nothing to report if it was. -/
theorem run_afterReplay (hstrict : o.strict = false) (capture : Bytes) (m : Machine) :
    ∃ error?, (capture ≠ [] ∧ (found o capture).rest = [] → error? = none)
      ∧ (afterReplay ((replayer o).feed capture)).run m
        = (⟨some (if capture ≠ [] ∧ (found o capture).rest = [] then exitSuccess else exitData),
          error?⟩, m) := by
  obtain ⟨-, hempty, hresult, hidle⟩ := replay_exact hstrict capture
  unfold afterReplay
  by_cases hwhole : capture ≠ [] ∧ (found o capture).rest = []
  · rw [if_pos hwhole, hresult hwhole.1, Framing.Unframed.result]
    cases herror : (found o capture).error? with
    | some e => exact absurd hwhole.2 (Framing.fault_of_decodeAll Layout.standard_lawful herror).1
    | none =>
      simp only [if_pos ((hidle herror).mpr hwhole.2)]
      exact ⟨none, fun _ => rfl, rfl⟩
  · rw [if_neg hwhole]
    by_cases hnil : capture = []
    · rw [hempty hnil]
      exact ⟨_, fun h => absurd h hwhole, rfl⟩
    · rw [hresult hnil, Framing.Unframed.result]
      cases herror : (found o capture).error? with
      | some e =>
        rw [← (Framing.fault_of_decodeAll Layout.standard_lawful herror).2]
        exact ⟨_, fun h => absurd h hwhole, rfl⟩
      | none =>
        have hstate : ¬ ((replayer o).feed capture).assembler.state = .idle :=
          fun h => hwhole ⟨hnil, (hidle herror).mp h⟩
        simp only [if_neg hstate]
        exact ⟨_, fun h => absurd h hwhole, rfl⟩

theorem listed_eq (ds : List Delivery) :
    ∃ assembled : Nat → Bool, listed ds = Listed.place (ds.map (·.message)) assembled := by
  refine ⟨fun i => (ds[i]?.map (·.owned)).getD false, List.ext_getElem? fun i => ?_⟩
  rw [listed, Listed.place, List.getElem?_mapIdx, List.getElem?_mapIdx, List.getElem?_map]
  cases hd : ds[i]? with
  | none => rfl
  | some d => simp only [Option.map_some, Option.getD_some]

theorem run_decode (format : ListingFormat) {m : Machine} {capture : Bytes}
    (hchunk : o.chunkSize ≤ min m.memory maxCapacity)
    (hread : m.read (if o.input = "-" then .standard else .file o.input) = .ok capture) :
    let replay := (replayer o).feed capture
    (decode o format).run m
      = (afterReplay replay).run (m.printing (Listed.bytes format (listed replay.deliveries))) := by
  obtain ⟨hmemory, hcapacity⟩ := Nat.le_min.mp hchunk
  simp only [decode, Session.run, hread, if_neg (Nat.not_lt.mpr hcapacity), if_pos hmemory]
  rfl

theorem ofArguments_of_parse {args : List String} {invocation : Invocation} (default : ListingFormat)
    (h : Arguments.parse args = .ok invocation) :
    ofArguments args default = ofCommand invocation.command (invocation.format?.getD default) := by
  rw [ofArguments, h]

theorem run_ofArguments_decode {args : List String} {format? : Option ListingFormat} (default : ListingFormat)
    {m : Machine} {capture : Bytes} (hparse : Arguments.parse args = .ok ⟨.decode o, format?⟩)
    (hstrict : o.strict = false) (hchunk : o.chunkSize ≤ min m.memory maxCapacity)
    (hread : m.read (if o.input = "-" then .standard else .file o.input) = .ok capture) :
    ∃ (assembled : Nat → Bool) (error? : Option String),
      let listing := Listed.bytes (format?.getD default) (Listed.place (found o capture).messages assembled)
      (capture ≠ [] ∧ (found o capture).rest = [] → error? = none)
        ∧ (ofArguments args default).run m
          = (⟨some (if capture ≠ [] ∧ (found o capture).rest = [] then exitSuccess else exitData), error?⟩,
            m.printing listing) := by
  obtain ⟨assembled, hlisted⟩ := listed_eq ((replayer o).feed capture).deliveries
  obtain ⟨error?, hnone, hended⟩ := run_afterReplay hstrict capture
    (m.printing (Listed.bytes (format?.getD default) (listed ((replayer o).feed capture).deliveries)))
  rw [(replay_exact hstrict capture).1] at hlisted
  refine ⟨assembled, error?, hnone, ?_⟩
  rw [ofArguments_of_parse default hparse, ofCommand, run_decode _ hchunk hread, hended, hlisted]

end Session

end MessageWire
