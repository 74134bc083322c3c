import MessageWire.Proofs.Value.Staging
/-!
# Two transfers over the same spans

Staging cuts a transfer at the same places whatever is made of its spans. So two transfers that do the same with every
span, each in its own way, come to the same: what is known of one span, and of spans one behind the other, is known of
the whole transfer (`Lockstep.run`).
-/

namespace MessageWire

variable {σ τ : Type}

/-- What is known of two transfers of elements of `unit` bytes: from states that belong together (`Starts`), what
becomes of each over the spans of so many elements (`Runs`). -/
structure Lockstep (unit : Nat) (act : Span → σ → Except ValueError Unit × σ)
    (act' : Span → τ → Except ValueError Unit × τ) (Starts : σ → τ → Prop)
    (Runs : Nat → σ → τ → Except ValueError Unit × σ → Except ValueError Unit × τ → Prop) : Prop where
  none : ∀ s t, Starts s t → Runs 0 s t (.ok (), s) (.ok (), t)
  span : ∀ span count s t, Starts s t → span.length = count * unit → Runs count s t (act span s) (act' span t)
  result : ∀ count s t got got', Runs count s t got got' → got.1 = got'.1
  next : ∀ count s t s' t', Starts s t → Runs count s t (.ok (), s') (.ok (), t') → Starts s' t'
  append : ∀ count later s t s' t' got got', Runs count s t (.ok (), s') (.ok (), t') →
    Runs later s' t' got got' →
    Runs (count + later) s t got got'
  stop : ∀ count later s t e s' t', Runs count s t (.error e, s') (.error e, t') →
    Runs (count + later) s t (.error e, s') (.error e, t')

namespace Lockstep

variable {unit : Nat} {act : Span → σ → Except ValueError Unit × σ}
  {act' : Span → τ → Except ValueError Unit × τ}
  {Starts : σ → τ → Prop}
  {Runs : Nat → σ → τ → Except ValueError Unit × σ → Except ValueError Unit × τ → Prop}

theorem runSpans (h : Lockstep unit act act' Starts Runs) (hpos : 0 < unit) {chunk : Nat} (hchunk : 0 < chunk)
    (hcut : unit ∣ chunk) {total start slots : Nat} (htotal : total = start + slots * unit) {s : σ} {t : τ}
    (hstart : Starts s t) :
    Runs slots s t (MessageWire.runSpans chunk hchunk total act start s)
      (MessageWire.runSpans chunk hchunk total act' start t) := by
  -- Along the elements left: the next span holds some of them, and no part of any other.
  induction slots using Nat.strongRecOn generalizing start s t with
  | _ slots ih =>
    rw [MessageWire.runSpans, MessageWire.runSpans]
    split
    case isFalse hend =>
      have hzero : slots * unit = 0 := by omega
      obtain rfl : slots = 0 := (Nat.mul_eq_zero.mp hzero).resolve_right (Nat.ne_of_gt hpos)
      exact h.none s t hstart
    case isTrue hmore =>
      obtain ⟨count, later, hcount, rfl, hlen, htotal'⟩ := exists_next_span hpos hchunk hcut htotal hmore
      have hspan := h.span ⟨start, start + count * unit⟩ count s t hstart (Nat.add_sub_cancel_left _ _)
      have hresult := h.result _ _ _ _ _ hspan
      simp only [hlen]
      generalize act ⟨start, start + count * unit⟩ s = got at hspan hresult ⊢
      generalize act' ⟨start, start + count * unit⟩ t = got' at hspan hresult ⊢
      obtain ⟨e | _, s'⟩ := got
      · obtain ⟨_, t'⟩ := got'
        obtain rfl := hresult
        exact h.stop _ _ _ _ _ _ _ hspan
      · obtain ⟨_, t'⟩ := got'
        obtain rfl := hresult
        have hlater := ih later (by omega) htotal' (h.next _ _ _ _ _ hstart hspan)
        exact h.append _ _ _ _ _ _ _ _ hspan hlater

/-- Two transfers of `slots` elements, under any limits that have room for the buffer. -/
theorem run (h : Lockstep unit act act' Starts Runs) (hpos : 0 < unit) {limits : StagingLimits} {slots : Nat}
    (hroom : limits.Allocates (slots * unit) unit) {s : σ} {t : τ} (hstart : Starts s t) :
    let got := limits.run (slots * unit) unit act s
    let got' := limits.run (slots * unit) unit act' t
    got.1 = got'.1 ∧ (∀ n, got'.1 = .ok n → n = slots * unit)
      ∧ Runs slots s t (got.1.map fun _ => (), got.2) (got'.1.map fun _ => (), got'.2) := by
  by_cases hzero : slots * unit = 0
  · obtain rfl : slots = 0 := (Nat.mul_eq_zero.mp hzero).resolve_right (Nat.ne_of_gt hpos)
    rw [hzero]
    refine ⟨rfl, fun n hn => ?_, h.none s t hstart⟩
    cases hn
    rfl
  · have hchunk := limits.chunkLength_pos unit hzero
    have hcut := limits.dvd_chunkLength hpos (Nat.dvd_mul_left unit slots)
    have hrun := h.runSpans hpos hchunk hcut (Nat.zero_add (slots * unit)).symm hstart
    have hresult := h.result _ _ _ _ _ hrun
    rw [StagingLimits.run_of_allocates hzero hroom, StagingLimits.run_of_allocates hzero hroom]
    simp only
    generalize MessageWire.runSpans _ _ _ act _ _ = got at hrun hresult ⊢
    generalize MessageWire.runSpans _ _ _ act' _ _ = got' at hrun hresult ⊢
    obtain ⟨result, s'⟩ := got
    obtain ⟨result', t'⟩ := got'
    obtain rfl : result = result' := hresult
    cases result with
    | error e => exact ⟨rfl, fun n hn => (by cases hn), hrun⟩
    | ok _ =>
      refine ⟨rfl, fun n hn => ?_, hrun⟩
      cases hn
      rfl

end Lockstep

end MessageWire
