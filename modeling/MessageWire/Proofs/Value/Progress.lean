import Mathlib.Control.Monad.Basic
import MessageWire.Proofs.Value.Reading
import MessageWire.Value.Type
/-!
# How far a failed read came

A read from a stream takes a front part of what the stream has left. If it succeeds it tells how long that part is,
and an error that tells a number tells the same one (`Source.Accounts`). The number is put together on the way: a fill
counts within its span, the transfer adds where the span starts, and a collection adds its header. An error that
tells nothing may come from anywhere, so elements have to be of a kind whose errors are silent
(`ElementCodec.Silent`), as those of the library are.

The rest may rely on `Format.accounts_readFrom`: every format and every destination of a collection accounts for the
bytes it takes, whatever the stream does.
-/

namespace MessageWire

variable {α β τ : Type}

theorem saturate_of_le {n : Nat} (h : n ≤ maxWord) : saturate n = n := Nat.min_eq_left h

/-! ### What errors tell -/

namespace ValueError

variable {e : ValueError} {taken before : Nat}

/-- What an error may tell of a read that took `taken` bytes. A count of used bytes is a word, so that it cannot tell
more than words hold. -/
def TrueTo (taken : Nat) : ValueError → Prop
  | truncatedStream expected actual consumed => (taken ≤ maxWord → consumed = taken) ∧ actual < expected
  | truncatedHeader _ available => available = taken
  | unexpectedNull consumed => consumed = taken ∧ taken = 1
  | _ => True

/-- An error that tells nothing of how far a read came. -/
def Silent : ValueError → Prop
  | truncatedStream _ _ _ => False
  | truncatedHeader _ _ => False
  | unexpectedNull _ => False
  | _ => True

/-- What an error may tell that comes up behind a header: nothing, or that the stream has ended. -/
def TrueBehind (taken : Nat) : ValueError → Prop
  | truncatedStream expected actual consumed => (taken ≤ maxWord → consumed = taken) ∧ actual < expected
  | e => e.Silent

theorem Silent.trueBehind (h : e.Silent) (taken : Nat) : e.TrueBehind taken := by
  cases e <;> first | exact h.elim | trivial

theorem TrueBehind.trueTo (h : e.TrueBehind taken) : e.TrueTo taken := by
  cases e <;> first | exact h | exact h.elim

theorem Silent.trueTo (h : e.Silent) (taken : Nat) : e.TrueTo taken := (h.trueBehind taken).trueTo

theorem TrueBehind.after (h : e.TrueBehind taken) (before : Nat) : (e.after before).TrueBehind (before + taken) := by
  cases e
  case truncatedStream expected actual consumed =>
    obtain ⟨hconsumed, hless⟩ := h
    refine ⟨fun hword => ?_, hless⟩
    rw [hconsumed (by omega), Nat.add_comm, saturate_of_le hword]
  all_goals first | exact h.elim | trivial

end ValueError

/-! ### Reads that account for what they take -/

/-- A read that took a front part of what `s` has left, `before` bytes having been taken earlier. Its answer or error
tells how many. -/
def Source.Accounts (s : Source) (told : Nat → ValueError → Prop) (before : Nat) (size : α → Nat)
    (got : Except ValueError α × Source) : Prop :=
  ∃ taken, s.left = taken ++ got.2.left
    ∧ (∀ a, got.1 = .ok a → size a = before + taken.length)
    ∧ ∀ e, got.1 = .error e → told (before + taken.length) e

namespace Source

open ValueError

variable {s s' s'' : Source} {told : Nat → ValueError → Prop} {before : Nat} {size : α → Nat}

theorem Accounts.of_ok {a : α} (h : s.Accounts told before size (.ok a, s')) :
    ∃ taken, s.left = taken ++ s'.left ∧ size a = before + taken.length := by
  obtain ⟨taken, hleft, hok, -⟩ := h
  exact ⟨taken, hleft, hok a rfl⟩

theorem Accounts.of_error {e : ValueError} (h : s.Accounts told before size (.error e, s')) :
    ∃ taken, s.left = taken ++ s'.left ∧ told (before + taken.length) e := by
  obtain ⟨taken, hleft, -, herror⟩ := h
  exact ⟨taken, hleft, herror e rfl⟩

theorem accounts_ok {taken : Bytes} {a : α} (hleft : s.left = taken ++ s'.left)
    (hsize : size a = before + taken.length) : s.Accounts told before size (.ok a, s') := by
  refine ⟨taken, hleft, fun b hb => ?_, fun e he => (nomatch he)⟩
  cases hb
  exact hsize

theorem accounts_nothing (s : Source) {a : α} (hsize : size a = before) : s.Accounts told before size (.ok a, s) :=
  accounts_ok (List.nil_append s.left).symm hsize

theorem accounts_error {taken : Bytes} {e : ValueError} (hleft : s.left = taken ++ s'.left)
    (htold : told (before + taken.length) e) : s.Accounts told before size (.error e, s') := by
  refine ⟨taken, hleft, fun a ha => (nomatch ha), fun e' he => ?_⟩
  cases he
  exact htold

theorem accounts_silent (s : Source) {e : ValueError} (h : e.Silent) :
    s.Accounts TrueBehind before size (.error e, s) :=
  accounts_error (List.nil_append s.left).symm (h.trueBehind _)

/-- What follows a read that succeeded goes on from where it came to. -/
theorem Accounts.append {told' : Nat → ValueError → Prop} {size' : β → Nat} {a : α}
    {got : Except ValueError β × Source}
    (h : s.Accounts told before size (.ok a, s')) (hlater : s'.Accounts told' (size a) size' got) :
    s.Accounts told' before size' got := by
  obtain ⟨taken, hleft, hsize⟩ := h.of_ok
  obtain ⟨later, hlater, hok, herror⟩ := hlater
  refine ⟨taken ++ later, ?_, fun b hb => ?_, fun e he => ?_⟩
  · rw [hleft, hlater, List.append_assoc]
  · rw [hok b hb, hsize, List.length_append, Nat.add_assoc]
  · rw [List.length_append, ← Nat.add_assoc, ← hsize]
    exact herror e he

theorem Accounts.mono {told' : Nat → ValueError → Prop} {got : Except ValueError α × Source}
    (h : s.Accounts told before size got) (htold : ∀ n e, told n e → told' n e) :
    s.Accounts told' before size got := by
  obtain ⟨taken, hleft, hok, herror⟩ := h
  exact ⟨taken, hleft, hok, fun e he => htold _ e (herror e he)⟩

theorem Accounts.bind {size' : β → Nat} {got : Except ValueError α × Source} (h : s.Accounts told before size got)
    (g : α → Except ValueError β) (hok : ∀ a b, g a = .ok b → size' b = size a)
    (herror : ∀ a, got.1 = .ok a → ∀ e, g a = .error e → told (size a) e) :
    s.Accounts told before size' (got.1.bind g, got.2) := by
  obtain ⟨e | a, s'⟩ := got
  · obtain ⟨taken, hleft, htold⟩ := h.of_error
    exact accounts_error hleft htold
  · obtain ⟨taken, hleft, hsize⟩ := h.of_ok
    refine ⟨taken, hleft, fun b hb => ?_, fun e he => ?_⟩
    · rw [hok a b hb, hsize]
    · rw [← hsize]
      exact herror a rfl e he

theorem Accounts.map {size' : β → Nat} {got : Except ValueError α × Source} (h : s.Accounts told before size got)
    (f : α → β) (hsize : ∀ a, size' (f a) = size a) : s.Accounts told before size' (got.1.map f, got.2) := by
  rw [Format.map_eq_bind]
  refine h.bind _ (fun a b hb => ?_) fun a _ e he => nomatch he
  cases hb
  exact hsize a

/-! ### Fills and transfers -/

theorem accounts_takeExactly (s : Source) (want : Nat) :
    s.Accounts TrueBehind 0 (fun _ => want) (s.takeExactly want) := by
  obtain ⟨hleft, hlen⟩ := s.fill_left want
  unfold takeExactly
  generalize s.fill want = got at hleft hlen ⊢
  obtain ⟨bytes, _ | e, s'⟩ := got
  · simp only at hleft hlen ⊢
    split
    case isTrue hless =>
      have htold : (truncatedStream want bytes.length bytes.length).TrueBehind (0 + bytes.length) :=
        ⟨fun _ => (Nat.zero_add _).symm, hless⟩
      exact accounts_error hleft.symm htold
    case isFalse hall => exact accounts_ok hleft.symm (by omega)
  · exact accounts_error hleft.symm (show (ValueError.io e).TrueBehind _ from trivial)

theorem Accounts.ok_after {a : α} (h : s.Accounts told 0 size (.ok a, s')) {before : Nat} {size' : β → Nat} {b : β}
    (hsize : size' b = before + size a) : s.Accounts told before size' (.ok b, s') := by
  obtain ⟨taken, hleft, htaken⟩ := h.of_ok
  rw [htaken, Nat.zero_add] at hsize
  exact accounts_ok hleft hsize

theorem Accounts.error_after {e : ValueError} (h : s.Accounts TrueBehind 0 size (.error e, s')) (before : Nat)
    (size' : β → Nat) : s.Accounts TrueBehind before size' (.error (e.after before), s') := by
  obtain ⟨taken, hleft, htold⟩ := h.of_error
  rw [Nat.zero_add] at htold
  exact accounts_error hleft (htold.after before)

/-- The consumer of a span fails only with errors that tell nothing. -/
def SilentConsumer (consume : Span → Bytes → τ → Except ValueError Unit × τ) : Prop :=
  ∀ span bs t e, (consume span bs t).1 = .error e → e.Silent

variable {consume : Span → Bytes → τ → Except ValueError Unit × τ}

theorem accounts_takeSpan (hconsume : SilentConsumer consume) {start stop : Nat} (hle : start ≤ stop)
    (st : Source × τ) :
    let got := takeSpan consume ⟨start, stop⟩ st
    st.1.Accounts TrueBehind start (fun _ => stop) (got.1, got.2.1) := by
  have htake := st.1.accounts_takeExactly (Span.length ⟨start, stop⟩)
  unfold takeSpan
  generalize st.1.takeExactly (Span.length ⟨start, stop⟩) = taken at htake ⊢
  obtain ⟨e | data, s⟩ := taken
  · exact htake.error_after start _
  · simp only
    generalize hgot : consume ⟨start, stop⟩ data st.2 = got
    obtain ⟨e | _, t⟩ := got
    · obtain ⟨taken, hleft, -⟩ := htake.of_ok
      exact accounts_error hleft ((hconsume _ _ _ e (congrArg Prod.fst hgot)).trueBehind _)
    · exact htake.ok_after (Nat.add_sub_cancel' hle).symm

/-- The spans of a transfer lie one behind the other, and each error counts from the first. -/
theorem accounts_runSpans (hconsume : SilentConsumer consume) {chunk : Nat} (hchunk : 0 < chunk) {total start : Nat}
    (hle : start ≤ total) (st : Source × τ) :
    let run := runSpans chunk hchunk total (takeSpan consume) start st
    st.1.Accounts TrueBehind start (fun _ => total) (run.1, run.2.1) := by
  -- A span starts where the reads before it came to, so that what it tells is appended to what they took.
  fun_induction runSpans chunk hchunk total (takeSpan consume) start st with
  | case1 start st hless stop st' hact ih =>
    have hspan := accounts_takeSpan hconsume (Nat.le_add_right start (min chunk (total - start))) st
    rw [show takeSpan consume ⟨start, start + min chunk (total - start)⟩ st = _ from hact] at hspan
    exact hspan.append (ih (by omega))
  | case2 start st hless stop e st' hact =>
    have hspan := accounts_takeSpan hconsume (Nat.le_add_right start (min chunk (total - start))) st
    rw [show takeSpan consume ⟨start, start + min chunk (total - start)⟩ st = _ from hact] at hspan
    obtain ⟨taken, hleft, htold⟩ := hspan.of_error
    exact accounts_error hleft htold
  | case3 start st hend => exact accounts_nothing st.1 (by omega)

theorem accounts_stage (hconsume : SilentConsumer consume) (i : Inlet) (total unit : Nat) (t : τ) :
    let got := i.stage total unit consume t
    i.source.Accounts TrueBehind 0 id (got.1, got.2.1.source) := by
  unfold Inlet.stage
  by_cases hzero : total = 0
  · subst hzero
    exact accounts_nothing i.source rfl
  by_cases hroom : i.staging.Allocates total unit
  case neg =>
    rw [StagingLimits.run_of_not_allocates hroom]
    exact accounts_silent i.source trivial
  case pos =>
    have hchunk := i.staging.chunkLength_pos unit hzero
    rw [StagingLimits.run_of_allocates hzero hroom]
    exact (accounts_runSpans hconsume hchunk (Nat.zero_le total) (i.source, t)).map _ fun _ => rfl

end Source

/-! ### Headers -/

namespace CountHeader

open ValueError

theorem accounts_readFrom (s : Source) : s.Accounts TrueTo 0 CountHeader.size (readFrom s) := by
  obtain ⟨hleft, hlen⟩ := s.fill_left 1
  unfold readFrom
  generalize s.fill 1 = first at hleft hlen ⊢
  obtain ⟨bytes, _ | e, s'⟩ := first
  case some => exact Source.accounts_error hleft.symm (show (ValueError.io e).TrueTo _ from trivial)
  case none =>
    match bytes with
    | [] => exact Source.accounts_error hleft.symm (show (truncatedHeader 1 0).TrueTo 0 from rfl)
    | flag :: more =>
      obtain rfl : more = [] := List.eq_nil_of_length_eq_zero (Nat.le_zero.mp (Nat.le_of_succ_le_succ hlen))
      simp only
      split
      case isTrue hnull => exact Source.accounts_ok hleft.symm rfl
      case isFalse hnull =>
        obtain ⟨hleft', -⟩ := s'.fill_left (announcedWidth flag)
        generalize s'.fill (announcedWidth flag) = rest at hleft' ⊢
        obtain ⟨raw, error?, s''⟩ := rest
        have hall : s.left = flag :: raw ++ s''.left := by
          rw [← hleft, ← hleft']
          rfl
        have hcount : 1 + raw.length = 0 + (flag :: raw).length := by
          rw [List.length_cons]
          omega
        cases error? with
        | some e => exact Source.accounts_error hall (show (ValueError.io e).TrueTo _ from trivial)
        | none =>
          simp only
          split
          case isTrue hless =>
            have htold : (truncatedHeader (1 + announcedWidth flag) (1 + raw.length)).TrueTo
                (0 + (flag :: raw).length) := hcount
            exact Source.accounts_error hall htold
          case isFalse hwhole =>
            unfold ofCountBytes
            simp only
            split
            · exact Source.accounts_error hall (show (invalidLength _).TrueTo _ from trivial)
            · exact Source.accounts_ok hall hcount

theorem ofCountBytes_ne_null (raw : Bytes) (size : Nat) : ofCountBytes raw ≠ .ok ⟨none, size⟩ := by
  unfold ofCountBytes
  simp only
  split
  all_goals
    intro h
    cases h

theorem size_of_null {s s' : Source} {size : Nat} (h : readFrom s = (.ok ⟨none, size⟩, s')) : size = 1 := by
  unfold readFrom at h
  generalize s.fill 1 = first at h
  obtain ⟨_ | ⟨flag, more⟩, _ | e, s₁⟩ := first
  case cons.none =>
    simp only at h
    split at h
    case isTrue hnull =>
      cases h
      rfl
    case isFalse hnull =>
      generalize s₁.fill (announcedWidth flag) = rest at h
      obtain ⟨raw, _ | e, s₂⟩ := rest
      · simp only at h
        split at h
        · cases h
        · exact absurd (Prod.mk.inj h).1 (ofCountBytes_ne_null raw size)
      · cases h
  all_goals cases h

end CountHeader

/-! ### Elements -/

/-- An encoding of elements whose errors tell nothing of the stream that the bytes came from. -/
def ElementCodec.Silent (e : ElementCodec α) : Prop := ∀ bs err, e.decode bs = .error err → err.Silent

namespace ElementCodec

variable {e : ElementCodec α}

theorem silent_plain (p : Plain α) (order : ByteOrder) : (plain p order).Silent :=
  fun _ _ h => nomatch h

end ElementCodec

theorem Ty.silent_charOfWord {w : BitVec (8 * 4)} {err : ValueError} (h : charOfWord w = .error err) : err.Silent := by
  unfold charOfWord at h
  split at h
  · cases h
  · cases h
    trivial

/-- Of the elements in stock, only characters fail to decode, and they tell the type and the value. -/
theorem Ty.silent_codec? {t : Ty} {order : ByteOrder} {codec : Codec t.Value} (h : t.codec? order = some codec) :
    codec.element.Silent := by
  cases t
  case char =>
    cases h
    exact fun bs err herr => silent_charOfWord herr
  all_goals
    cases h
    try exact fun bs err herr => nomatch herr

namespace Codec

open ValueError

variable {c : Codec α}

theorem silent_decodeAll (h : c.element.Silent) {bs : Bytes} {err : ValueError} (herr : c.decodeAll bs = .error err) :
    err.Silent := by
  obtain ⟨block, hdecode⟩ := exists_of_decodeAll herr
  exact h block err hdecode

theorem silent_decodeOnto (h : c.element.Silent) {bs : Bytes} {dst : List α} {err : ValueError}
    (herr : (c.decodeOnto bs dst).1 = .error err) : err.Silent := by
  rw [decodeOnto_fst] at herr
  cases hdecode : c.decodeAll bs with
  | ok vs =>
    rw [hdecode] at herr
    cases herr
  | error err' =>
    rw [hdecode] at herr
    cases herr
    exact silent_decodeAll h hdecode

theorem silent_decodeSpan (h : c.element.Silent) : Source.SilentConsumer c.decodeSpan :=
  fun _ _ _ _ herr => silent_decodeOnto h herr

theorem fillMemory_eq (p : Plain α) (order : ByteOrder) (dst : List α) (i : Inlet) :
    ((fillMemory p order dst i).1, (fillMemory p order dst i).2.1.source)
      = ((i.source.takeExactly (dst.length * p.size)).1.map fun _ => dst.length * p.size,
        (i.source.takeExactly (dst.length * p.size)).2) := by
  unfold fillMemory Source.takeExactly
  simp only
  generalize i.source.fill (dst.length * p.size) = got
  obtain ⟨bytes, _ | e, s⟩ := got
  · simp only
    split
    all_goals rfl
  · rfl

theorem silent_bytesOf {count : Nat} {e : ValueError} (h : c.bytesOf count = .error e) : e.Silent := by
  unfold bytesOf at h
  split at h
  · cases h
  · cases h
    trivial

/-- Both ways to fill a destination, as one block and element by element. -/
theorem accounts_readOnto (h : c.element.Silent) (dst : List α) (i : Inlet) :
    let got := c.readOnto dst i
    i.source.Accounts TrueBehind 0 id (got.1, got.2.1.source) := by
  cases c with
  | block p order =>
    show i.source.Accounts TrueBehind 0 id ((fillMemory p order dst i).1, (fillMemory p order dst i).2.1.source)
    rw [fillMemory_eq]
    exact (i.source.accounts_takeExactly _).map _ fun _ => rfl
  | loop e =>
    show i.source.Accounts TrueBehind 0 id
      (((loop e).unstageOnto dst i).1, ((loop e).unstageOnto dst i).2.1.source)
    unfold unstageOnto
    cases hlength : (loop e).bytesOf dst.length with
    | error err => exact i.source.accounts_silent (silent_bytesOf hlength)
    | ok total => exact Source.accounts_stage (silent_decodeSpan h) i _ _ _

end Codec

/-! ### Collections -/

namespace Collection

open ValueError

variable {c : Collection α}

theorem silent_decodeSpan (h : c.codec.element.Silent) : Source.SilentConsumer c.decodeSpan := by
  intro span bs done err herr
  unfold decodeSpan at herr
  split at herr
  case h_1 => cases herr
  case h_2 err' hdecode =>
    cases herr
    exact Codec.silent_decodeAll h hdecode

theorem accounts_readElementsFrom (h : c.codec.element.Silent) (count : Nat) (i : Inlet) :
    let got := c.readElementsFrom count i
    i.source.Accounts TrueBehind 0 Prod.snd (got.1, got.2.source) := by
  unfold readElementsFrom
  cases hlength : c.bodyLength count with
  | error e => exact i.source.accounts_silent (Codec.silent_bytesOf hlength)
  | ok total =>
    have hstage := Source.accounts_stage (silent_decodeSpan h) i total c.elementSize []
    simp only
    generalize i.stage _ _ _ _ = run at hstage ⊢
    obtain ⟨e | body, i', done⟩ := run
    · obtain ⟨taken, hleft, htold⟩ := hstage.of_error
      exact Source.accounts_error hleft htold
    · obtain ⟨taken, hleft, hsize⟩ := hstage.of_ok
      exact Source.accounts_ok hleft hsize

end Collection

/-! ### Behind a header -/

open ValueError

theorem accounts_readCountedFrom {body : Nat → Nat → Source → Except ValueError (Option α × Nat) × Source}
    (hbody : ∀ count size (s : Source), s.Accounts TrueBehind size Prod.snd (body count size s)) (s : Source) :
    s.Accounts TrueTo 0 Prod.snd (readCountedFrom body s) := by
  have hheader := CountHeader.accounts_readFrom s
  unfold readCountedFrom
  generalize CountHeader.readFrom s = got at hheader ⊢
  obtain ⟨e | ⟨_ | count, size⟩, s'⟩ := got
  · obtain ⟨taken, hleft, htold⟩ := hheader.of_error
    exact Source.accounts_error hleft htold
  · exact hheader.ok_after (Nat.zero_add _).symm
  · exact hheader.append ((hbody count size s').mono fun _ _ => TrueBehind.trueTo)

theorem size_of_readCountedFrom_null {body : Nat → Nat → Source → Except ValueError (Option α × Nat) × Source}
    (hbody : ∀ count size s n, (body count size s).1 ≠ .ok (none, n)) {s : Source} {n : Nat}
    (h : (readCountedFrom body s).1 = .ok (none, n)) : n = 1 := by
  unfold readCountedFrom at h
  generalize hheader : CountHeader.readFrom s = got at h
  obtain ⟨e | ⟨_ | count, size⟩, s'⟩ := got
  · cases h
  · cases h
    exact CountHeader.size_of_null hheader
  · exact absurd h (hbody count size s' n)

/-! ### Formats -/

namespace Format

/-- A format whose stream reads account for the bytes they take. -/
def Accounts (f : Format α) : Prop := ∀ s : Source, s.Accounts TrueTo 0 Prod.snd (f.readFrom s)

def NullByte (f : Format (Option α)) : Prop := ∀ s n, (f.readFrom s).1 = .ok (none, n) → n = 1

theorem Accounts.required {f : Format (Option α)} (h : f.Accounts) (hnull : f.NullByte) :
    (Format.required f).Accounts := by
  intro s
  rw [readFrom_required]
  refine (h s).bind notNull size_of_notNull fun a ha e he => ?_
  obtain ⟨_ | v, n⟩ := a
  · cases he
    exact ⟨rfl, hnull s n ha⟩
  · cases he

theorem readFrom_scalar (e : ElementCodec α) (s : Source) :
    (scalar e).readFrom s = ((s.takeExactly e.size).1.bind (whole e), (s.takeExactly e.size).2) := by
  simp only [scalar]
  obtain ⟨_ | bs, s'⟩ := s.takeExactly e.size
  all_goals rfl

theorem accounts_scalar {e : ElementCodec α} (h : e.Silent) : (scalar e).Accounts := by
  intro s
  rw [readFrom_scalar]
  have htake := (s.accounts_takeExactly e.size).mono fun _ _ => TrueBehind.trueTo
  refine htake.bind (whole e) (size_of_whole e) fun bs _ err herr => ?_
  unfold whole at herr
  cases hdecode : e.decode bs with
  | ok a => simp [hdecode, Except.map] at herr
  | error err' =>
    simp only [hdecode, Except.map, Except.error.injEq] at herr
    subst herr
    exact (h bs err' hdecode).trueTo _

theorem accounts_optionalBytes : optionalBytes.Accounts := by
  intro s
  show s.Accounts TrueTo 0 Prod.snd (readBytesFrom s)
  rw [readBytesFrom_eq]
  refine accounts_readCountedFrom (fun count size s => ?_) s
  have htake := s.accounts_takeExactly count
  unfold bytesBodyFrom
  generalize s.takeExactly count = got at htake ⊢
  obtain ⟨e | raw, s'⟩ := got
  · exact htake.error_after size _
  · exact htake.ok_after rfl

theorem nullByte_optionalBytes : optionalBytes.NullByte := by
  intro s n h
  change (readBytesFrom s).1 = _ at h
  rw [readBytesFrom_eq] at h
  refine size_of_readCountedFrom_null (fun count size s n h => ?_) h
  unfold bytesBodyFrom at h
  generalize s.takeExactly count = got at h
  obtain ⟨e | raw, s'⟩ := got
  all_goals cases h

theorem textOf_some (raw : Bytes) (n : Nat) :
    (∃ text, textOf (some raw, n) = .ok (some text, n))
      ∨ ∃ reason, textOf (some raw, n) = .error (invalidValue "String" reason) := by
  unfold textOf
  simp only
  split
  · exact .inl ⟨_, rfl⟩
  · exact .inr ⟨_, rfl⟩

theorem accounts_optionalText : optionalText.Accounts := by
  intro s
  show s.Accounts TrueTo 0 Prod.snd (asText (optionalBytes.readFrom s).1, (optionalBytes.readFrom s).2)
  rw [asText_eq]
  refine (accounts_optionalBytes s).bind textOf size_of_textOf fun a _ e he => ?_
  obtain ⟨_ | raw, n⟩ := a
  · cases he
  · rcases textOf_some raw n with ⟨text, htext⟩ | ⟨reason, htext⟩
    all_goals
      rw [htext] at he
      cases he
    trivial

theorem nullByte_optionalText : optionalText.NullByte := by
  intro s n h
  change asText (optionalBytes.readFrom s).1 = _ at h
  rw [asText_eq] at h
  obtain ⟨⟨_ | raw, n'⟩, hread, hn⟩ := of_bind_eq_ok h
  · cases hn
    exact nullByte_optionalBytes s n hread
  · rcases textOf_some raw n' with ⟨text, htext⟩ | ⟨reason, htext⟩
    all_goals
      rw [htext] at hn
      cases hn

end Format

/-! ### Collections from streams -/

namespace Collection

variable {c : Collection α}

theorem accounts_readFrom (h : c.codec.element.Silent) (i : Inlet) :
    i.source.Accounts TrueTo 0 Prod.snd ((c.readFrom i).1, (c.readFrom i).2.source) := by
  rw [Format.readFrom_collection_eq]
  refine accounts_readCountedFrom (fun count size s => ?_) i.source
  have helements := accounts_readElementsFrom h count ⟨s, i.staging⟩
  unfold Format.elementsBodyFrom
  generalize c.readElementsFrom count ⟨s, i.staging⟩ = got at helements ⊢
  obtain ⟨e | ⟨vs, body⟩, i'⟩ := got
  · exact helements.error_after size _
  · exact helements.ok_after rfl

theorem size_of_readFrom_null {i : Inlet} {n : Nat} (h : (c.readFrom i).1 = .ok (none, n)) : n = 1 := by
  have heq := congrArg Prod.fst (Format.readFrom_collection_eq c i)
  rw [h] at heq
  refine size_of_readCountedFrom_null (fun count size s n h => ?_) heq.symm
  unfold Format.elementsBodyFrom at h
  generalize c.readElementsFrom count ⟨s, i.staging⟩ = got at h
  obtain ⟨e | ⟨vs, body⟩, i'⟩ := got
  all_goals cases h

/-- What a read into a growing destination tells, it has from the elements that were read. -/
theorem settle_eq (mode : FillMode) (members : List α) (read : Except ValueError (Option (List α) × Nat)) :
    (settle mode members read).1 = read.map fun a => ⟨a.1.map List.length, a.2⟩ := by
  match read with
  | .error e => rfl
  | .ok (none, consumed) => rfl
  | .ok (some vs, consumed) => rfl

theorem accounts_readIntoFrom (h : c.codec.element.Silent) (members : List α) (mode : FillMode) (i : Inlet) :
    let got := c.readIntoFrom members mode i
    i.source.Accounts TrueTo 0 ReadOutcome.consumed (got.1, got.2.2.source) := by
  show i.source.Accounts TrueTo 0 ReadOutcome.consumed
    ((settle mode members (c.readFrom i).1).1, (c.readFrom i).2.source)
  rw [settle_eq]
  exact (accounts_readFrom h i).map _ fun _ => rfl

theorem silent_shortage (c : Collection α) (count size capacity : Nat) : (c.shortage count size capacity).Silent := by
  unfold shortage
  cases hlength : c.bodyLength count with
  | error e => exact Codec.silent_bytesOf hlength
  | ok body => trivial

/-- A destination that is too small is found so with the header taken and nothing else. -/
theorem accounts_readOntoFrom (h : c.codec.element.Silent) (dst : List α) (i : Inlet) :
    let got := c.readOntoFrom dst i
    i.source.Accounts TrueTo 0 ReadOutcome.consumed (got.1, got.2.2.source) := by
  have hheader := CountHeader.accounts_readFrom i.source
  unfold readOntoFrom readCountFrom
  generalize hread : CountHeader.readFrom i.source = got at hheader ⊢
  obtain ⟨e | ⟨_ | count, size⟩, s⟩ := got
  · obtain ⟨taken, hleft, htold⟩ := hheader.of_error
    exact Source.accounts_error hleft htold
  · obtain rfl := CountHeader.size_of_null hread
    have hnull : i.source.Accounts TrueTo 0 ReadOutcome.consumed (.ok .null, s) := hheader.ok_after rfl
    exact hnull
  · simp only
    split
    case isTrue hless =>
      obtain ⟨taken, hleft, -⟩ := hheader.of_ok
      exact Source.accounts_error hleft ((c.silent_shortage _ _ _).trueTo _)
    case isFalse hroom =>
      have hbody := Codec.accounts_readOnto h (dst.take count) { i with source := s }
      generalize c.codec.readOnto (dst.take count) { i with source := s } = run at hbody ⊢
      obtain ⟨e | body, i', front⟩ := run
      · exact hheader.append ((hbody.error_after size _).mono fun _ _ => TrueBehind.trueTo)
      · have hall : s.Accounts TrueBehind size ReadOutcome.consumed (.ok ⟨some count, size + body⟩, i'.source) :=
          hbody.ok_after rfl
        exact hheader.append (hall.mono fun _ _ => TrueBehind.trueTo)

end Collection

namespace Format

theorem accounts_optionalCollection {c : Collection α} (h : c.codec.element.Silent) (holder : Holder α β)
    (limits : StagingLimits) : (optionalCollection holder c limits).Accounts :=
  fun s => (c.accounts_readFrom h ⟨s, limits⟩).map _ fun _ => rfl

theorem nullByte_optionalCollection (c : Collection α) (holder : Holder α β) (limits : StagingLimits) :
    (optionalCollection holder c limits).NullByte := by
  intro s n h
  change (c.readFrom ⟨s, limits⟩).1.map (optionalCollection.hold holder) = _ at h
  rw [map_eq_bind] at h
  obtain ⟨⟨_ | vs, n'⟩, hread, hn⟩ := of_bind_eq_ok h
  · cases hn
    exact Collection.size_of_readFrom_null hread
  · cases hn

/-- **Errors tell the truth about a stream.** Every read takes a front part of what is left, and an error that tells a
length tells how long. -/
theorem accounts_formats (codec : Codec α) (hcodec : codec.element.Silent) :
    (scalar codec.element).Accounts ∧ text.Accounts ∧ optionalText.Accounts
      ∧ bytes.Accounts ∧ optionalBytes.Accounts
      ∧ (∀ (hpos : 0 < codec.size) (holder : Holder α β) (limits : StagingLimits),
        (collection holder ⟨codec, hpos⟩ limits).Accounts
          ∧ (optionalCollection holder ⟨codec, hpos⟩ limits).Accounts)
      ∧ (∀ (hpos : 0 < codec.size) (i : Inlet),
        let c : Collection α := ⟨codec, hpos⟩
        i.source.Accounts TrueTo 0 Prod.snd ((c.readFrom i).1, (c.readFrom i).2.source)
          ∧ (∀ members mode, i.source.Accounts TrueTo 0 ReadOutcome.consumed
            ((c.readIntoFrom members mode i).1, (c.readIntoFrom members mode i).2.2.source))
          ∧ ∀ dst, i.source.Accounts TrueTo 0 ReadOutcome.consumed
            ((c.readOntoFrom dst i).1, (c.readOntoFrom dst i).2.2.source))
      ∧ (∀ (p : Plain α) (order : ByteOrder), (Codec.block p order).element.Silent)
      ∧ ∀ (t : Ty) (order : ByteOrder) (codec : Codec t.Value), t.codec? order = some codec →
        codec.element.Silent := by
  refine ⟨accounts_scalar hcodec, accounts_optionalText.required nullByte_optionalText, accounts_optionalText,
    accounts_optionalBytes.required nullByte_optionalBytes, accounts_optionalBytes, fun hpos holder limits => ?_,
    fun hpos i => ⟨?_, fun members mode => ?_, fun dst => ?_⟩, ElementCodec.silent_plain,
    fun t order codec => Ty.silent_codec?⟩
  · have hoptional := accounts_optionalCollection (c := ⟨codec, hpos⟩) hcodec holder limits
    exact ⟨hoptional.required (nullByte_optionalCollection _ holder limits), hoptional⟩
  · exact Collection.accounts_readFrom hcodec i
  · exact Collection.accounts_readIntoFrom hcodec members mode i
  · exact Collection.accounts_readOntoFrom hcodec dst i

/-- Two words in chunks of one. The stream is interrupted and then ends in the middle of the second word, though there
is another byte behind. -/
theorem accounts_formats_of_cut :
    let f : Format (List (BitVec 16)) :=
      collection (Shape.list.holder (BitVec 16)) ⟨.block (.word 2) .little, by decide⟩
        { poolThreshold := 0, maxBufferSize := 3 }
    let s : Source := ⟨[1, 2, 7, 0, 9, 9], [.fail .interrupted, .give 1, .give 1, .give 2, .give 1, .give 0]⟩
    (f.readFrom s).1 = .error (.truncatedStream 2 1 5)
      ∧ ∃ taken, s.left = taken ++ (f.readFrom s).2.left ∧ taken.length = 5 := by
  intro f s
  have hread : (f.readFrom s).1 = .error (.truncatedStream 2 1 5) := by decide +kernel
  have hsilent : (Codec.block (.word 2) .little).element.Silent := Ty.silent_codec? (t := .scalar .u16) rfl
  obtain ⟨-, -, -, -, -, hcollections, -⟩ := accounts_formats (β := List (BitVec 16)) _ hsilent
  obtain ⟨taken, hleft, -, herror⟩ := (hcollections (by decide) _ _).1 s
  have hword : 0 + taken.length ≤ maxWord := by
    have hlen : 6 = (taken ++ (f.readFrom s).2.left).length := congrArg List.length hleft
    rw [List.length_append] at hlen
    unfold maxWord
    omega
  have hconsumed : 5 = 0 + taken.length := (herror _ hread).1 hword
  exact ⟨hread, taken, hleft, by omega⟩

end Format

end MessageWire
