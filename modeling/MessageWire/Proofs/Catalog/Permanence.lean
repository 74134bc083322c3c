import MessageWire.Proofs.Catalog.Resolution
/-!
# Bindings that stay

What a catalog has bound, it answers for good. Nothing takes a binding away (`Catalog.lookup_bound_after`), and a type
that has one is neither looked up anywhere else nor registered again. A lookup binds what it finds, but for an answer of
a factory that may not be kept, so the first such answer is the last (`Catalog.binding_stays`).

Catalogs here may hold any formats, not only those in stock. What they do hold under a type is a format for that type
(`Catalog.WellTyped`).
-/

namespace MessageWire

/-! ### Tables -/

namespace Table

variable {table : Table} {t : Ty} {b : Binding}

/-- Every type is bound to a format of its own. -/
def WellTyped (table : Table) : Prop := ∀ t b, (t, b) ∈ table → b.type = t

theorem WellTyped.bind (h : table.WellTyped) (b : Binding) : (table.bind b).WellTyped := by
  intro t b' hmem
  rcases List.mem_cons.mp hmem with heq | hmem
  · cases heq
    rfl
  · exact h t b' hmem

theorem wellTyped_ofBindings (bs : List Binding) : (ofBindings bs).WellTyped := by
  intro t b hmem
  obtain ⟨_, -, heq⟩ := List.mem_map.mp hmem
  cases heq
  rfl

theorem WellTyped.type_of_lookup (h : table.WellTyped) (hlookup : table.lookup t = some b) : b.type = t :=
  h t b (mem_of_lookup hlookup)

end Table

namespace Catalog

/-! ### Requests -/

/-- What may be asked of a catalog. -/
inductive Request where
  /-- A type is looked up, and its format is used for something: to encode a value, to decode one, or for nothing. -/
  | use (t : Ty) {α : Type} (act : Format t.Value → Except ValueError α)
  | register (b : Binding)
  | registerPlain (t : Ty) (p : Plain t.Value) (hpos : 0 < p.size)
  | addFactory (f : Factory)

/-- The catalog after an addition, and whether it was refused. A catalog that refuses stays as it was. -/
def settleAddition (c : Catalog) : Except ValueError Catalog → Except ValueError Unit × Catalog
  | .error e => (.error e, c)
  | .ok c' => (.ok (), c')

/-- Whether a request was granted, and the catalog afterwards. -/
def perform (c : Catalog) : Request → Except ValueError Unit × Catalog
  | .use t act => ((c.withFormat t act).1.map fun _ => (), (c.withFormat t act).2)
  | .register b => c.settleAddition (c.register b)
  | .registerPlain t p hpos => c.settleAddition (c.registerPlain t p hpos)
  | .addFactory f => (.ok (), c.addFactory f)

/-- The catalog after some requests, whether they were granted or not. -/
def after (c : Catalog) : List Request → Catalog
  | [] => c
  | request :: requests => (c.perform request).2.after requests

variable {c c' : Catalog} {t : Ty} {b : Binding}

/-! ### One request after the other -/

theorem register_eq_ok (h : c.register b = .ok c') : c' = { c with registered := c.registered.bind b } := by
  unfold register at h
  split at h
  · cases h
  · cases h
    rfl

/-- To register a plain type is to register a format and to add a factory. -/
theorem registerPlain_eq (c : Catalog) (p : Plain t.Value) (hpos : 0 < p.size) :
    ∃ f : Factory, c.registerPlain t p hpos
      = (c.register ⟨t, .scalar (Codec.block p c.settings.hostOrder).element⟩).map (·.addFactory f) := ⟨_, rfl⟩

theorem after_induction {motive : Catalog → Prop} (afterLookup : ∀ c t, motive c → motive (c.afterLookup t))
    (register : ∀ (c : Catalog) b, motive c → motive { c with registered := c.registered.bind b })
    (addFactory : ∀ c f, motive c → motive (c.addFactory f)) (requests : List Request) (c : Catalog)
    (h : motive c) :
    motive (c.after requests) := by
  have hregister : ∀ (c : Catalog) b c', c.register b = .ok c' → motive c → motive c' := by
    intro c b c' hc hmotive
    rw [register_eq_ok hc]
    exact register c b hmotive
  induction requests generalizing c with
  | nil => exact h
  | cons request requests ih =>
    apply ih
    cases request with
    | use t act => exact afterLookup c t h
    | register b =>
      show motive (c.settleAddition (c.register b)).2
      cases hc : c.register b with
      | error e => exact h
      | ok c' => exact hregister c b c' hc h
    | registerPlain t p hpos =>
      obtain ⟨f, hplain⟩ := c.registerPlain_eq p hpos
      show motive (c.settleAddition (c.registerPlain t p hpos)).2
      rw [hplain]
      cases hc : c.register ⟨t, .scalar (Codec.block p c.settings.hostOrder).element⟩ with
      | error e => exact h
      | ok c' => exact addFactory c' f (hregister c _ c' hc h)
    | addFactory f => exact addFactory c f h

/-! ### Nothing takes a binding away -/

theorem lookup_bound_keep {b' : Binding} (h : c.bound.lookup t = some b) : (c.keep b').bound.lookup t = some b := by
  unfold keep
  split
  case isTrue => exact h
  case isFalse hnone =>
    have hne : t ≠ b'.type := by
      rintro rfl
      exact hnone (by rw [h]; rfl)
    show (c.bound.bind b').lookup t = some b
    rw [Table.bind, List.lookup_cons, beq_false_of_ne hne]
    exact h

theorem lookup_bound_afterLookup (h : c.bound.lookup t = some b) (t' : Ty) :
    (c.afterLookup t').bound.lookup t = some b := by
  unfold afterLookup
  split
  · exact lookup_bound_keep h
  · split
    · exact lookup_bound_keep h
    · exact h

theorem lookup_bound_after (h : c.bound.lookup t = some b) (requests : List Request) :
    (c.after requests).bound.lookup t = some b :=
  after_induction (motive := fun c => c.bound.lookup t = some b) (fun _ t' h => lookup_bound_afterLookup h t')
    (fun _ _ h => h) (fun _ _ h => h) requests c h

/-! ### What a type with a binding shows -/

theorem direct?_of_bound (h : c.bound.lookup t = some b) : c.direct? t = some b := by
  simp [direct?, h]

theorem afterLookup_of_bound (hb : b.type = t) (h : c.bound.lookup t = some b) : c.afterLookup t = c := by
  subst hb
  rw [afterLookup, direct?_of_bound h]
  simp only [keep, h, Option.isSome_some, if_true]

theorem asked_of_bound (h : c.bound.lookup t = some b) : c.asked t = 0 := by
  rw [asked, direct?_of_bound h]
  rfl

theorem isBound_of_bound (h : c.bound.lookup t = some b) : c.isBound t = true := by
  rw [isBound, h]
  rfl

theorem register_of_isBound (h : c.isBound t = true) (f : Format t.Value) :
    c.register ⟨t, f⟩ = .error (.alreadyBound t.name) := if_pos h

theorem registerPlain_of_isBound (h : c.isBound t = true) (p : Plain t.Value) (hpos : 0 < p.size) :
    c.registerPlain t p hpos = .error (.alreadyBound t.name) := by
  obtain ⟨f, hplain⟩ := c.registerPlain_eq p hpos
  rw [hplain, register_of_isBound h]
  rfl

/-! ### Formats are of the type that they are stored under -/

/-- A catalog that holds nothing under a type but formats for that type. -/
structure WellTyped (c : Catalog) : Prop where
  bound : c.bound.WellTyped
  registered : c.registered.WellTyped

theorem wellTyped_ofSettings (s : CatalogSettings) : (ofSettings s).WellTyped :=
  ⟨fun _ _ hmem => (nomatch hmem), fun _ _ hmem => nomatch hmem⟩

theorem WellTyped.keep (h : c.WellTyped) (b : Binding) : (c.keep b).WellTyped := by
  unfold Catalog.keep
  split
  · exact h
  · exact ⟨h.bound.bind b, h.registered⟩

theorem WellTyped.afterLookup (h : c.WellTyped) (t : Ty) : (c.afterLookup t).WellTyped := by
  unfold Catalog.afterLookup
  split
  · exact h.keep _
  · split
    · exact h.keep _
    · exact h

theorem WellTyped.after (h : c.WellTyped) (requests : List Request) : (c.after requests).WellTyped :=
  after_induction (motive := WellTyped) (fun _ t h => h.afterLookup t) (fun _ b h => ⟨h.bound, h.registered.bind b⟩)
    (fun _ _ h => ⟨h.bound, h.registered⟩) requests c h

theorem WellTyped.type_of_direct? (h : c.WellTyped) (hb : c.direct? t = some b) : b.type = t := by
  simp only [direct?, Option.orElse_eq_orElse, Option.orElse_eq_or, Option.or_eq_some_iff] at hb
  rcases hb with hbound | ⟨-, hregistered | ⟨-, hbuiltin⟩⟩
  · exact h.bound.type_of_lookup hbound
  · exact h.registered.type_of_lookup hregistered
  · exact (Table.wellTyped_ofBindings _).type_of_lookup hbuiltin

theorem resolve_of_answer? (hb : b.type = t) (h : c.answer? t = some b) :
    ∃ f, b.formatFor? t = some f ∧ (c.resolve t).1 = .ok f := by
  subst hb
  exact ⟨b.format, b.formatFor?_self, by simp [resolve, h, b.formatFor?_self]⟩

/-! ### The first answer is the last -/

/-- A lookup of a type finds a binding that may be kept: one that the catalog has, or else the answer of a factory. -/
def Finds (c : Catalog) (t : Ty) (b : Binding) : Prop :=
  c.direct? t = some b ∨ c.direct? t = none ∧ c.firstAnswer? t = some ⟨b, true⟩

theorem WellTyped.type_of_finds (h : c.WellTyped) (hb : c.Finds t b) : b.type = t := by
  rcases hb with hdirect | ⟨-, hfirst⟩
  · exact h.type_of_direct? hdirect
  · exact type_of_firstAnswer? hfirst

theorem answer?_of_finds (hb : c.Finds t b) : c.answer? t = some b := by
  rcases hb with hdirect | ⟨hnone, hfirst⟩
  · exact answer?_of_direct? hdirect
  · simp [answer?, hnone, hfirst]

theorem afterLookup_of_finds (hb : c.Finds t b) : c.afterLookup t = c.keep b := by
  rcases hb with hdirect | ⟨hnone, hfirst⟩
  · rw [afterLookup, hdirect]
  · rw [afterLookup, hnone, hfirst]

theorem WellTyped.lookup_bound_of_finds (h : c.WellTyped) (hb : c.Finds t b) :
    (c.afterLookup t).bound.lookup t = some b := by
  have htype := h.type_of_finds hb
  subst htype
  rw [afterLookup_of_finds hb]
  cases hbound : c.bound.lookup b.type with
  | some b' =>
    -- What is bound already comes first in every lookup, so it is what this one found.
    have hdirect := direct?_of_bound hbound
    have hsame : b' = b := by
      rcases hb with hfound | ⟨hnone, -⟩
      · rw [hdirect] at hfound
        exact Option.some.inj hfound
      · rw [hdirect] at hnone
        cases hnone
    exact lookup_bound_keep (hsame ▸ hbound)
  | none =>
    simp [Catalog.keep, hbound, Table.bind]

/-- **A binding is never replaced.** Once a lookup has found one that may be kept, every later lookup finds it, and no
other can be registered. -/
theorem binding_stays (settings : CatalogSettings) (before : List Request) :
    let c := (ofSettings settings).after before
    (∀ table ∈ [c.bound, c.registered, c.settings.builtin], ∀ t b, (t, b) ∈ table →
        b.type = t ∧ ∃ f, b.formatFor? t = some f)
      ∧ (∀ t b, c.direct? t = some b → ∃ f, b.formatFor? t = some f ∧ (c.resolve t).1 = .ok f)
      ∧ ∀ t b, c.Finds t b → ∀ later : List Request,
        let c' := (c.resolve t).2.after later
        (∃ f, b.formatFor? t = some f ∧ (c.resolve t).1 = .ok f ∧ c'.resolve t = (.ok f, c'))
          ∧ c'.answer? t = some b ∧ c'.asked t = 0
          ∧ (∀ f, c'.perform (.register ⟨t, f⟩) = (.error (.alreadyBound t.name), c'))
          ∧ ∀ p hpos, c'.perform (.registerPlain t p hpos) = (.error (.alreadyBound t.name), c') := by
  intro c
  have htyped : c.WellTyped := (wellTyped_ofSettings settings).after before
  refine ⟨fun table htable t b hmem => ?_, fun t b hb => ?_, fun t b hb later => ?_⟩
  · have htype : b.type = t := by
      simp only [List.mem_cons, List.not_mem_nil, or_false] at htable
      rcases htable with rfl | rfl | rfl
      · exact htyped.bound t b hmem
      · exact htyped.registered t b hmem
      · exact Table.wellTyped_ofBindings _ t b hmem
    subst htype
    exact ⟨rfl, b.format, b.formatFor?_self⟩
  · exact resolve_of_answer? (htyped.type_of_direct? hb) (answer?_of_direct? hb)
  · intro c'
    have htype := htyped.type_of_finds hb
    have hbound : c'.bound.lookup t = some b := lookup_bound_after (htyped.lookup_bound_of_finds hb) later
    have hanswer := answer?_of_direct? (direct?_of_bound hbound)
    obtain ⟨f, hformat, hresolve⟩ := resolve_of_answer? htype (answer?_of_finds hb)
    obtain ⟨f', hformat', hresolve'⟩ := resolve_of_answer? htype hanswer
    obtain rfl : f = f' := Option.some.inj (hformat.symm.trans hformat')
    refine ⟨⟨f, hformat, hresolve, Prod.ext hresolve' (afterLookup_of_bound htype hbound)⟩, hanswer,
      asked_of_bound hbound, fun g => ?_, fun p hpos => ?_⟩
    · rw [perform, register_of_isBound (isBound_of_bound hbound)]
      rfl
    · rw [perform, registerPlain_of_isBound (isBound_of_bound hbound)]
      rfl

/-- A factory is the only one to know a type, then another one is added, and someone tries to register the type. -/
theorem binding_stays_of_factory :
    let t : Ty := .array .u8 3
    let b : Binding := ⟨t, .scalar (.plain (.array (.word 1) 3) .little)⟩
    let c := (ofSettings {}).after [.addFactory fun _ => some ⟨b, true⟩]
    let c' := (c.resolve t).2.after [.addFactory fun _ => none, .register ⟨t, b.format⟩]
    c.asked t = 17 ∧ c'.asked t = 0 ∧ c'.answer? t = some b
      ∧ c'.perform (.registerPlain t (.array (.word 1) 3) (by decide)) = (.error (.alreadyBound "[u8; 3]"), c') := by
  intro t b c c'
  have hfinds : c.Finds t b := by
    refine .inr ⟨?_, ?_⟩
    · rfl
    · rfl
  obtain ⟨-, -, hstays⟩ := binding_stays {} [.addFactory fun _ => some ⟨b, true⟩]
  obtain ⟨-, hanswer, hasked, -, hplain⟩ :=
    hstays t b hfinds [.addFactory fun _ => none, .register ⟨t, b.format⟩]
  exact ⟨rfl, hasked, hanswer, hplain _ _⟩

end Catalog

end MessageWire
