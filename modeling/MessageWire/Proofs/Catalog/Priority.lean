import MessageWire.Proofs.Catalog.Permanence
/-!
# Which format prevails

`Catalog.Prevails` says in what order a catalog's sources come, without a lookup: the binding of an earlier one, else
the registered one, else the one that every catalog has, else the answer of the first factory with one for the type
itself. A lookup finds what prevails (`Catalog.prevails_iff`).

What a type resolves to can change only when the type itself is registered. No lookup changes it, no factory that is
added later, and no registration of another type (`Catalog.WellTyped.resolve_after_of_untouched`).
-/

namespace MessageWire

theorem Factory.answer?_eq_some_iff {f : Factory} {t : Ty} {a : Answer} :
    f.answer? t = some a ↔ f t = some a ∧ a.binding.type = t := by
  rw [Factory.answer?, Option.filter_eq_some_iff, decide_eq_true_iff]

theorem Factory.answer?_eq_none_iff {f : Factory} {t : Ty} :
    f.answer? t = none ↔ ∀ a, f t = some a → a.binding.type ≠ t := by
  simp only [Factory.answer?, Option.filter_eq_none_iff, decide_eq_true_iff]

namespace Catalog

variable {c c' : Catalog} {t t' : Ty} {b b' : Binding}

/-! ### The order of the sources -/

/-- A binding comes before all others that a catalog could answer with for a type. -/
inductive Prevails (c : Catalog) (t : Ty) : Binding → Prop where
  | bound {b : Binding} (h : c.bound.lookup t = some b) : Prevails c t b
  | registered {b : Binding} (hbound : c.bound.lookup t = none) (h : c.registered.lookup t = some b) : Prevails c t b
  | builtin {b : Binding} (hbound : c.bound.lookup t = none) (hregistered : c.registered.lookup t = none)
      (h : c.settings.builtin.lookup t = some b) : Prevails c t b
  | factory {earlier later : List Factory} {f : Factory} {a : Answer} (hbound : c.bound.lookup t = none)
      (hregistered : c.registered.lookup t = none) (hbuiltin : c.settings.builtin.lookup t = none)
      (hsplit : c.factories = earlier ++ f :: later)
      (hearlier : ∀ g ∈ earlier, ∀ a, g t = some a → a.binding.type ≠ t)
      (h : f t = some a) (htype : a.binding.type = t) : Prevails c t a.binding

/-- No source of a catalog has a format for a type. -/
structure Lacks (c : Catalog) (t : Ty) : Prop where
  bound : c.bound.lookup t = none
  registered : c.registered.lookup t = none
  builtin : c.settings.builtin.lookup t = none
  factories : ∀ f ∈ c.factories, ∀ a, f t = some a → a.binding.type ≠ t

theorem direct?_eq_none_iff :
    c.direct? t = none
      ↔ c.bound.lookup t = none ∧ c.registered.lookup t = none ∧ c.settings.builtin.lookup t = none := by
  simp only [direct?, Option.orElse_eq_orElse, Option.orElse_eq_or, Option.or_eq_none_iff]

theorem firstAnswer?_eq_none_iff :
    c.firstAnswer? t = none ↔ ∀ f ∈ c.factories, ∀ a, f t = some a → a.binding.type ≠ t := by
  simp only [firstAnswer?, List.findSome?_eq_none_iff, Factory.answer?_eq_none_iff]

theorem answer?_eq_some_iff :
    c.answer? t = some b
      ↔ c.direct? t = some b ∨ c.direct? t = none ∧ ∃ a, c.firstAnswer? t = some a ∧ a.binding = b := by
  simp only [answer?, Option.orElse_eq_orElse, Option.orElse_eq_or, Option.or_eq_some_iff, Option.map_eq_some_iff]

theorem lacks_iff : c.Lacks t ↔ c.answer? t = none := by
  simp only [answer?, Option.orElse_eq_orElse, Option.orElse_eq_or, Option.or_eq_none_iff, Option.map_eq_none_iff,
    direct?_eq_none_iff, firstAnswer?_eq_none_iff]
  constructor
  · rintro ⟨hbound, hregistered, hbuiltin, hfactories⟩
    exact ⟨⟨hbound, hregistered, hbuiltin⟩, hfactories⟩
  · rintro ⟨⟨hbound, hregistered, hbuiltin⟩, hfactories⟩
    exact ⟨hbound, hregistered, hbuiltin, hfactories⟩

theorem Prevails.answer? (h : c.Prevails t b) : c.answer? t = some b := by
  cases h with
  | bound h => exact answer?_of_direct? (direct?_of_bound h)
  | registered hbound h => exact answer?_of_direct? (by simp [direct?, hbound, h])
  | builtin hbound hregistered h => exact answer?_of_direct? (by simp [direct?, hbound, hregistered, h])
  | @factory earlier later f a hbound hregistered hbuiltin hsplit hearlier h htype =>
    have hnone : c.direct? t = none := direct?_eq_none_iff.mpr ⟨hbound, hregistered, hbuiltin⟩
    have hfirst : c.firstAnswer? t = some a := by
      rw [firstAnswer?, List.findSome?_eq_some_iff]
      refine ⟨earlier, f, later, hsplit, Factory.answer?_eq_some_iff.mpr ⟨h, htype⟩, ?_⟩
      intro g hg
      exact Factory.answer?_eq_none_iff.mpr (hearlier g hg)
    exact answer?_eq_some_iff.mpr (.inr ⟨hnone, a, hfirst, rfl⟩)

theorem prevails_of_direct? (h : c.direct? t = some b) : c.Prevails t b := by
  simp only [direct?, Option.orElse_eq_orElse, Option.orElse_eq_or, Option.or_eq_some_iff] at h
  rcases h with hbound | ⟨hbound, hregistered | ⟨hregistered, hbuiltin⟩⟩
  · exact .bound hbound
  · exact .registered hbound hregistered
  · exact .builtin hbound hregistered hbuiltin

theorem prevails_of_firstAnswer? {a : Answer} (hnone : c.direct? t = none) (h : c.firstAnswer? t = some a) :
    c.Prevails t a.binding := by
  obtain ⟨hbound, hregistered, hbuiltin⟩ := direct?_eq_none_iff.mp hnone
  obtain ⟨earlier, f, later, hsplit, hanswer, hearlier⟩ := List.findSome?_eq_some_iff.mp h
  obtain ⟨hanswer, htype⟩ := Factory.answer?_eq_some_iff.mp hanswer
  refine .factory hbound hregistered hbuiltin hsplit ?_ hanswer htype
  intro g hg
  exact Factory.answer?_eq_none_iff.mp (hearlier g hg)

theorem prevails_iff : c.Prevails t b ↔ c.answer? t = some b := by
  constructor
  · exact Prevails.answer?
  · intro h
    rcases answer?_eq_some_iff.mp h with hdirect | ⟨hnone, a, hfirst, rfl⟩
    · exact prevails_of_direct? hdirect
    · exact prevails_of_firstAnswer? hnone hfirst

/-! ### What a lookup answers -/

theorem WellTyped.type_of_answer? (h : c.WellTyped) (hb : c.answer? t = some b) : b.type = t := by
  rcases answer?_eq_some_iff.mp hb with hdirect | ⟨-, a, hfirst, rfl⟩
  · exact h.type_of_direct? hdirect
  · exact type_of_firstAnswer? hfirst

theorem resolve_of_lacks (h : c.Lacks t) : (c.resolve t).1 = .error (.unsupportedType t.name) := by
  simp [resolve, lacks_iff.mp h]

theorem resolve_congr (h : c'.answer? t = c.answer? t) : (c'.resolve t).1 = (c.resolve t).1 := by
  simp only [resolve, h]

theorem WellTyped.resolve_eq_ok_iff (h : c.WellTyped) {f : Format t.Value} :
    (c.resolve t).1 = .ok f ↔ ∃ b, c.Prevails t b ∧ b.formatFor? t = some f := by
  constructor
  · intro hresolve
    cases hanswer : c.answer? t with
    | none =>
      rw [resolve_of_lacks (lacks_iff.mpr hanswer)] at hresolve
      cases hresolve
    | some b =>
      obtain ⟨g, hformat, hg⟩ := resolve_of_answer? (h.type_of_answer? hanswer) hanswer
      obtain rfl : g = f := Except.ok.inj (hg.symm.trans hresolve)
      exact ⟨b, prevails_iff.mpr hanswer, hformat⟩
  · rintro ⟨b, hprevails, hformat⟩
    obtain ⟨g, hformat', hg⟩ := resolve_of_answer? (h.type_of_answer? hprevails.answer?) hprevails.answer?
    obtain rfl : g = f := Option.some.inj (hformat'.symm.trans hformat)
    exact hg

theorem WellTyped.resolve_eq_error_iff (h : c.WellTyped) {e : ValueError} :
    (c.resolve t).1 = .error e ↔ e = .unsupportedType t.name ∧ c.Lacks t := by
  constructor
  · intro hresolve
    cases hanswer : c.answer? t with
    | none =>
      have hlacks := lacks_iff.mpr hanswer
      rw [resolve_of_lacks hlacks] at hresolve
      exact ⟨(Except.error.inj hresolve).symm, hlacks⟩
    | some b =>
      obtain ⟨g, -, hg⟩ := resolve_of_answer? (h.type_of_answer? hanswer) hanswer
      rw [hg] at hresolve
      cases hresolve
  · rintro ⟨rfl, hlacks⟩
    exact resolve_of_lacks hlacks

/-! ### What leaves an answer as it was -/

theorem WellTyped.answer?_afterLookup (h : c.WellTyped) (t t' : Ty) :
    (c.afterLookup t).answer? t' = c.answer? t' :=
  Catalog.answer?_afterLookup (fun _ hb => h.type_of_direct? hb) t'

theorem answer?_bind_of_ne (hne : t ≠ b.type) :
    ({ c with registered := c.registered.bind b } : Catalog).answer? t = c.answer? t := by
  have hlookup : (c.registered.bind b).lookup t = c.registered.lookup t := by
    rw [Table.bind, List.lookup_cons, beq_false_of_ne hne]
  simp only [answer?, direct?, firstAnswer?, hlookup]

theorem answer?_register_of_ne (hregister : c.register b = .ok c') (hne : t ≠ b.type) :
    c'.answer? t = c.answer? t := by
  rw [register_eq_ok hregister]
  exact answer?_bind_of_ne hne

/-- What was registered prevails. It could be registered because no lookup had bound the type. -/
theorem prevails_register (hregister : c.register b = .ok c') : c'.Prevails b.type b := by
  cases hfree : c.isBound b.type with
  | true =>
    rw [register, if_pos hfree] at hregister
    cases hregister
  | false =>
    rw [register_eq_ok hregister]
    refine .registered ?_ ?_
    · simpa using (Bool.or_eq_false_iff.mp hfree).1
    · simp [Table.bind]

/-- A factory that is added last is not asked for what an answer was there for, kept or not. -/
theorem answer?_addFactory (h : c.answer? t = some b) (f : Factory) : (c.addFactory f).answer? t = some b := by
  rcases answer?_eq_some_iff.mp h with hdirect | ⟨hnone, a, hfirst, rfl⟩
  · exact answer?_of_direct? hdirect
  · refine answer?_eq_some_iff.mpr (.inr ⟨hnone, a, ?_, rfl⟩)
    show (c.factories ++ [f]).findSome? (·.answer? t) = some a
    rw [List.findSome?_append, show c.factories.findSome? (·.answer? t) = some a from hfirst]
    rfl

theorem WellTyped.resolve_afterLookup (h : c.WellTyped) (t t' : Ty) :
    ((c.resolve t).2.resolve t').1 = (c.resolve t').1 :=
  resolve_congr (h.answer?_afterLookup t t')

theorem WellTyped.resolve_addFactory (h : c.WellTyped) {g : Format t.Value} (hresolve : (c.resolve t).1 = .ok g)
    (f : Factory) : ((c.addFactory f).resolve t).1 = .ok g := by
  obtain ⟨b, hprevails, -⟩ := h.resolve_eq_ok_iff.mp hresolve
  rw [← hresolve]
  apply resolve_congr
  rw [answer?_addFactory hprevails.answer? f, hprevails.answer?]

/-! ### Runs of requests -/

def Request.Spares (t : Ty) : Request → Prop
  | .use _ _ => True
  | .register b => t ≠ b.type
  | .registerPlain t' _ _ => t ≠ t'
  | .addFactory _ => True

theorem answer?_perform (h : c.WellTyped) (hb : c.answer? t = some b) {request : Request}
    (hspares : request.Spares t) : (c.perform request).2.answer? t = some b := by
  have hregister : ∀ b' c', t ≠ b'.type → c.register b' = .ok c' → c'.answer? t = some b := by
    intro b' c' hne hc
    rw [answer?_register_of_ne hc hne, hb]
  cases request with
  | use t' act =>
    show (c.afterLookup t').answer? t = some b
    rw [h.answer?_afterLookup t' t, hb]
  | register b' =>
    show (c.settleAddition (c.register b')).2.answer? t = some b
    cases hc : c.register b' with
    | error e => exact hb
    | ok c' => exact hregister b' c' hspares hc
  | registerPlain t' p hpos =>
    obtain ⟨f, hplain⟩ := c.registerPlain_eq p hpos
    show (c.settleAddition (c.registerPlain t' p hpos)).2.answer? t = some b
    rw [hplain]
    cases hc : c.register ⟨t', .scalar (Codec.block p c.settings.hostOrder).element⟩ with
    | error e => exact hb
    | ok c' => exact answer?_addFactory (hregister ⟨t', _⟩ c' hspares hc) f
  | addFactory f => exact answer?_addFactory hb f

theorem WellTyped.perform (h : c.WellTyped) (request : Request) : (c.perform request).2.WellTyped :=
  h.after [request]

theorem WellTyped.answer?_after (h : c.WellTyped) (hb : c.answer? t = some b) {requests : List Request}
    (hspares : ∀ request ∈ requests, request.Spares t) : (c.after requests).answer? t = some b := by
  induction requests generalizing c with
  | nil => exact hb
  | cons request requests ih =>
    obtain ⟨hfirst, hrest⟩ := List.forall_mem_cons.mp hspares
    exact ih (h.perform request) (answer?_perform h hb hfirst) hrest

/-- A type that resolves keeps its format until it is registered itself, whether the format was kept or not. -/
theorem WellTyped.resolve_after_of_untouched (h : c.WellTyped) {f : Format t.Value}
    (hresolve : (c.resolve t).1 = .ok f) {requests : List Request}
    (hspares : ∀ request ∈ requests, request.Spares t) : ((c.after requests).resolve t).1 = .ok f := by
  obtain ⟨b, hprevails, -⟩ := h.resolve_eq_ok_iff.mp hresolve
  rw [← hresolve]
  apply resolve_congr
  rw [h.answer?_after hprevails.answer? hspares, hprevails.answer?]

/-! ### The priority of sources -/

/-- **Formats are found in the order of their sources.** A type resolves to what prevails, and keeps it through lookups,
later factories and other registrations. -/
theorem resolve_by_priority (settings : CatalogSettings) (before : List Request) :
    let c := (ofSettings settings).after before
    (∀ t f, (c.resolve t).1 = .ok f ↔ ∃ b, c.Prevails t b ∧ b.formatFor? t = some f)
      ∧ (∀ t b b', c.Prevails t b → c.Prevails t b' → b = b')
      ∧ (∀ t e, (c.resolve t).1 = .error e ↔ e = .unsupportedType t.name ∧ c.Lacks t)
      ∧ (∀ t t', ((c.resolve t).2.resolve t').1 = (c.resolve t').1)
      ∧ (∀ f t g, (c.resolve t).1 = .ok g → ((c.addFactory f).resolve t).1 = .ok g)
      ∧ (∀ b c', c.register b = .ok c' →
        (c'.resolve b.type).1 = .ok b.format ∧ ∀ t, t ≠ b.type → (c'.resolve t).1 = (c.resolve t).1)
      ∧ ∀ t f later, (c.resolve t).1 = .ok f → (∀ request ∈ later, Request.Spares t request) →
        ((c.after later).resolve t).1 = .ok f := by
  intro c
  have htyped : c.WellTyped := (wellTyped_ofSettings settings).after before
  refine ⟨fun t f => htyped.resolve_eq_ok_iff, fun t b b' hb hb' => ?_, fun t e => htyped.resolve_eq_error_iff,
    htyped.resolve_afterLookup, fun f t g hg => htyped.resolve_addFactory hg f, fun b c' hregister => ⟨?_, ?_⟩,
    fun t f later hf hspares => htyped.resolve_after_of_untouched hf hspares⟩
  · exact Option.some.inj (hb.answer?.symm.trans hb'.answer?)
  · obtain ⟨f, hformat, hresolve⟩ := resolve_of_answer? rfl (prevails_register hregister).answer?
    obtain rfl : b.format = f := Option.some.inj (b.formatFor?_self.symm.trans hformat)
    exact hresolve
  · intro t hne
    exact resolve_congr (answer?_register_of_ne hregister hne)

/-- The first factory answers with a format for another type, the second with one that may not be kept, and a third
comes too late. -/
theorem resolve_by_priority_of_factories :
    let t : Ty := .array .u8 3
    let little : Binding := ⟨t, .scalar (.plain (.array (.word 1) 3) .little)⟩
    let big : Binding := ⟨t, .scalar (.plain (.array (.word 1) 3) .big)⟩
    let other : Binding := ⟨.array .u8 2, .scalar (.plain (.array (.word 1) 2) .little)⟩
    let c := (ofSettings {}).after
      [.addFactory fun _ => some ⟨other, true⟩, .addFactory fun _ => some ⟨little, false⟩]
    let later : List Request := [.addFactory fun _ => some ⟨big, true⟩, .register other]
    (c.resolve t).1 = .ok little.format ∧ ((c.after later).resolve t).1 = .ok little.format
      ∧ ((ofSettings {}).resolve t).1 = .error (.unsupportedType "[u8; 3]") := by
  intro t little big other c later
  obtain ⟨hok, -, -, -, -, -, hlater⟩ := resolve_by_priority {}
    [.addFactory fun _ => some ⟨other, true⟩, .addFactory fun _ => some ⟨little, false⟩]
  have hprevails : c.Prevails t little := prevails_iff.mpr (by rfl)
  have hresolve : (c.resolve t).1 = .ok little.format := (hok t _).mpr ⟨little, hprevails, little.formatFor?_self⟩
  refine ⟨hresolve, hlater t _ later hresolve ?_, resolve_of_lacks (lacks_iff.mpr (by rfl))⟩
  intro request hrequest
  rcases List.mem_cons.mp hrequest with rfl | hrequest
  · trivial
  · obtain rfl := List.mem_singleton.mp hrequest
    show t ≠ other.type
    decide

end Catalog

end MessageWire
