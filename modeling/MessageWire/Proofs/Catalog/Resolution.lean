import MessageWire.Proofs.Value.Stock
import MessageWire.Value.Catalog
/-!
# Which formats a catalog finds

A catalog that only lookups, plain types and stock formats have gone into (`Catalog.Reachable`) finds stock
formats only, and they keep to the staging limits that it was given (`Catalog.ReachableUnder`). It finds one for every
type that the library itself knows (`Catalog.Stock.resolves`), and a lookup leaves all answers as they were
(`Catalog.Stock.answer?_afterLookup`).
-/

namespace MessageWire

/-! ### Stock bindings -/

variable {within : StagingLimits → Prop}

def Binding.Stock (within : StagingLimits → Prop) (b : Binding) : Prop := Format.Stock within b.type b.format

def Factory.Stock (within : StagingLimits → Prop) (f : Factory) : Prop :=
  ∀ t a, f t = some a → a.binding.Stock within

/-- Every type is bound to a stock format of its own. -/
def Table.Stock (within : StagingLimits → Prop) (table : Table) : Prop :=
  ∀ t b, (t, b) ∈ table → b.type = t ∧ b.Stock within

theorem Binding.eq_of_formatFor? {b : Binding} {t : Ty} {f : Format t.Value} (h : b.formatFor? t = some f) :
    b = ⟨t, f⟩ := by
  unfold formatFor? at h
  split at h
  case isTrue htype =>
    subst htype
    cases h
    rfl
  case isFalse => cases h

theorem Table.mem_of_lookup {table : Table} {t : Ty} {b : Binding} (h : table.lookup t = some b) :
    (t, b) ∈ table := by
  obtain ⟨before, after, rfl, -⟩ := List.lookup_eq_some_iff.mp h
  simp

theorem Table.Stock.of_lookup {table : Table} (h : table.Stock within) {t : Ty} {b : Binding}
    (hlookup : table.lookup t = some b) : b.type = t ∧ b.Stock within :=
  h t b (mem_of_lookup hlookup)

theorem Table.Stock.bind {table : Table} (h : table.Stock within) {b : Binding} (hb : b.Stock within) :
    (table.bind b).Stock within := by
  intro t b' hmem
  rcases List.mem_cons.mp hmem with heq | hmem
  · cases heq
    exact ⟨rfl, hb⟩
  · exact h t b' hmem

theorem Table.stock_ofBindings {bs : List Binding} (h : ∀ b ∈ bs, b.Stock within) :
    (Table.ofBindings bs).Stock within := by
  intro t b hmem
  obtain ⟨_, hb, heq⟩ := List.mem_map.mp hmem
  cases heq
  exact ⟨rfl, h b hb⟩

theorem Factory.stock_ofCollection {element : Ty} (c : Collection element.Value) {limits : StagingLimits}
    (h : within limits) : (Factory.ofCollection c limits).Stock within := by
  intro t a hanswer
  unfold Factory.ofCollection at hanswer
  split at hanswer
  · split at hanswer
    · cases hanswer
      exact .collection _ c h
    · cases hanswer
  · split at hanswer
    · cases hanswer
      exact .optionalCollection _ c h
    · cases hanswer
  · cases hanswer

theorem CatalogSettings.stock_builtin (s : CatalogSettings) : s.builtin.Stock within := by
  apply Table.stock_ofBindings
  intro b hb
  rcases List.mem_append.mp hb with helement | hother
  · obtain ⟨t, -, hb⟩ := List.mem_filterMap.mp helement
    obtain ⟨codec, -, rfl⟩ := Option.map_eq_some_iff.mp hb
    exact .single codec
  · simp only [List.mem_cons, List.not_mem_nil, or_false] at hother
    rcases hother with rfl | rfl | rfl
    · exact .text
    · exact .optionalText
    · exact .bytes

theorem CatalogSettings.stock_factories {s : CatalogSettings} (h : within s.staging) :
    ∀ f ∈ s.factories, Factory.Stock within f := by
  intro f hf
  obtain ⟨t, -, hf⟩ := List.mem_filterMap.mp hf
  simp only [Option.bind_eq_bind, Option.bind_eq_some_iff] at hf
  obtain ⟨codec, -, c, -, hf⟩ := hf
  cases hf
  exact Factory.stock_ofCollection c h

/-! ### Stock catalogs -/

namespace Catalog

/-- A catalog of stock formats, which still has the factories that it started with. -/
structure Stock (within : StagingLimits → Prop) (c : Catalog) : Prop where
  staging : within c.settings.staging
  registered : c.registered.Stock within
  factories : ∀ f ∈ c.factories, Factory.Stock within f
  bound : c.bound.Stock within
  known : ∀ f ∈ c.settings.factories, f ∈ c.factories

variable {c c' : Catalog} {t : Ty} {b : Binding}

theorem type_of_firstAnswer? {a : Answer} (h : c.firstAnswer? t = some a) : a.binding.type = t := by
  obtain ⟨f, -, hanswer⟩ := List.exists_of_findSome?_eq_some h
  simpa using (Option.filter_eq_some_iff.mp hanswer).2

theorem Stock.of_direct? (h : c.Stock within) (hb : c.direct? t = some b) : b.type = t ∧ b.Stock within := by
  simp only [direct?, Option.orElse_eq_orElse, Option.orElse_eq_or, Option.or_eq_some_iff] at hb
  rcases hb with hbound | ⟨-, hregistered | ⟨-, hbuiltin⟩⟩
  · exact h.bound.of_lookup hbound
  · exact h.registered.of_lookup hregistered
  · exact c.settings.stock_builtin.of_lookup hbuiltin

theorem Stock.of_firstAnswer? (h : c.Stock within) {a : Answer} (ha : c.firstAnswer? t = some a) :
    a.binding.type = t ∧ a.binding.Stock within := by
  obtain ⟨f, hf, hanswer⟩ := List.exists_of_findSome?_eq_some ha
  obtain ⟨hanswer, -⟩ := Option.filter_eq_some_iff.mp hanswer
  exact ⟨type_of_firstAnswer? ha, h.factories f hf t a hanswer⟩

theorem Stock.of_answer? (h : c.Stock within) (hb : c.answer? t = some b) : b.type = t ∧ b.Stock within := by
  simp only [answer?, Option.orElse_eq_orElse, Option.orElse_eq_or, Option.or_eq_some_iff] at hb
  rcases hb with hdirect | ⟨-, hfirst⟩
  · exact h.of_direct? hdirect
  · obtain ⟨a, ha, rfl⟩ := Option.map_eq_some_iff.mp hfirst
    exact h.of_firstAnswer? ha

theorem answer?_of_resolve {f : Format t.Value} (h : (c.resolve t).1 = .ok f) : c.answer? t = some ⟨t, f⟩ := by
  simp only [resolve] at h
  split at h
  case h_1 format hformat =>
    cases h
    obtain ⟨b, hb, hformat⟩ := Option.bind_eq_some_iff.mp hformat
    rw [hb, Binding.eq_of_formatFor? hformat]
  case h_2 => cases h

theorem Stock.of_resolve (h : c.Stock within) {f : Format t.Value} (hresolve : (c.resolve t).1 = .ok f) :
    Format.Stock within t f :=
  (h.of_answer? (answer?_of_resolve hresolve)).2

/-! ### What keeps a catalog in stock -/

theorem stock_ofSettings {s : CatalogSettings} (h : within s.staging) : (ofSettings s).Stock within where
  staging := h
  registered _ _ hmem := nomatch hmem
  factories := CatalogSettings.stock_factories h
  bound _ _ hmem := nomatch hmem
  known _ hf := hf

theorem Stock.keep (h : c.Stock within) (hb : b.Stock within) : (c.keep b).Stock within := by
  unfold Catalog.keep
  split
  · exact h
  · exact ⟨h.staging, h.registered, h.factories, h.bound.bind hb, h.known⟩

theorem Stock.afterLookup (h : c.Stock within) (t : Ty) : (c.afterLookup t).Stock within := by
  unfold Catalog.afterLookup
  split
  case h_1 b hb => exact h.keep (h.of_direct? hb).2
  case h_2 =>
    split
    case h_1 b ha => exact h.keep (h.of_firstAnswer? ha).2
    case h_2 => exact h

theorem Stock.register (h : c.Stock within) (hb : b.Stock within) (hregister : c.register b = .ok c') :
    c'.Stock within := by
  unfold Catalog.register at hregister
  split at hregister
  · cases hregister
  · cases hregister
    exact ⟨h.staging, h.registered.bind hb, h.factories, h.bound, h.known⟩

theorem Stock.addFactory (h : c.Stock within) {f : Factory} (hf : f.Stock within) : (c.addFactory f).Stock within := by
  refine ⟨h.staging, h.registered, fun g hg => ?_, h.bound,
    fun g hg => List.mem_append_left _ (h.known g hg)⟩
  rcases List.mem_append.mp hg with hold | hnew
  · exact h.factories g hold
  · obtain rfl := List.mem_singleton.mp hnew
    exact hf

theorem Stock.registerPlain (h : c.Stock within) {p : Plain t.Value} {hpos : 0 < p.size}
    (hregister : c.registerPlain t p hpos = .ok c') : c'.Stock within := by
  have hb : Binding.Stock within ⟨t, .scalar (Codec.block p c.settings.hostOrder).element⟩ := Format.Stock.single _
  unfold Catalog.registerPlain at hregister
  cases hwith : c.register ⟨t, .scalar (Codec.block p c.settings.hostOrder).element⟩ with
  | error e => simp [hwith, Except.map] at hregister
  | ok c'' =>
    simp only [hwith, Except.map, Except.ok.injEq] at hregister
    subst hregister
    exact (h.register hb hwith).addFactory (Factory.stock_ofCollection _ h.staging)

/-- The catalogs that come about by lookups and by additions of plain types and stock formats, with staging limits of
a kind. -/
inductive ReachableUnder (within : StagingLimits → Prop) : Catalog → Prop where
  | new (s : CatalogSettings) : within s.staging → ReachableUnder within (ofSettings s)
  | lookup {c : Catalog} (t : Ty) : ReachableUnder within c → ReachableUnder within (c.afterLookup t)
  | registerPlain {c c' : Catalog} {t : Ty} {p : Plain t.Value} {hpos : 0 < p.size} :
    ReachableUnder within c → c.registerPlain t p hpos = .ok c' → ReachableUnder within c'
  | register {c c' : Catalog} {b : Binding} :
    ReachableUnder within c → b.Stock within → c.register b = .ok c' → ReachableUnder within c'
  | addFactory {c : Catalog} {f : Factory} :
    ReachableUnder within c → f.Stock within → ReachableUnder within (c.addFactory f)

/-- The catalogs that come about so with any staging limits. -/
abbrev Reachable (c : Catalog) : Prop := c.ReachableUnder fun _ => True

theorem Reachable.new (s : CatalogSettings) : (ofSettings s).Reachable := ReachableUnder.new s trivial

theorem ReachableUnder.stock (h : c.ReachableUnder within) : c.Stock within := by
  induction h with
  | new s hs => exact stock_ofSettings hs
  | lookup t _ ih => exact ih.afterLookup t
  | registerPlain _ hregister ih => exact ih.registerPlain hregister
  | register _ hb hregister ih => exact ih.register hb hregister
  | addFactory _ hf ih => exact ih.addFactory hf

/-! ### What is always found -/

theorem answer?_of_direct? (h : c.direct? t = some b) : c.answer? t = some b := by
  simp [answer?, h]

theorem Stock.resolves_of_answer? (h : c.Stock within) (hb : c.answer? t = some b) :
    ∃ f, (c.resolve t).1 = .ok f := by
  obtain ⟨rfl, -⟩ := h.of_answer? hb
  exact ⟨b.format, by simp [resolve, hb, b.formatFor?_self]⟩

theorem Stock.resolves_of_builtin (h : c.Stock within) (hb : (c.settings.builtin.lookup t).isSome) :
    ∃ f, (c.resolve t).1 = .ok f := by
  obtain ⟨b, hb⟩ := Option.isSome_iff_exists.mp hb
  have hdirect : (c.direct? t).isSome := by simp [direct?, hb]
  obtain ⟨b', hb'⟩ := Option.isSome_iff_exists.mp hdirect
  exact h.resolves_of_answer? (answer?_of_direct? hb')

theorem Stock.resolves_of_factory (h : c.Stock within) {f : Factory} (hf : f ∈ c.settings.factories)
    (hanswer : (f.answer? t).isSome) : ∃ f, (c.resolve t).1 = .ok f := by
  have hfirst : (c.firstAnswer? t).isSome := List.findSome?_isSome_iff.mpr ⟨f, h.known f hf, hanswer⟩
  have hsome : (c.answer? t).isSome := by simp [answer?, hfirst]
  obtain ⟨b, hb⟩ := Option.isSome_iff_exists.mp hsome
  exact h.resolves_of_answer? hb

/-- The types that every catalog has a format for. -/
inductive Known : Ty → Prop where
  | element {t : Ty} (h : t ∈ CatalogSettings.elementTypes) : Known t
  | text : Known .text
  | optionalText : Known (.option .text)
  | bytes : Known .bytes
  | collection (shape : Shape) {t : Ty} (h : t ∈ CatalogSettings.elementTypes) : Known (.collection shape t)
  | optionalCollection (shape : Shape) {t : Ty} (h : t ∈ CatalogSettings.elementTypes) :
    Known (.option (.collection shape t))

theorem codec?_of_mem (order : ByteOrder) (h : t ∈ CatalogSettings.elementTypes) :
    ∃ codec, t.codec? order = some codec ∧ 0 < codec.size := by
  rcases List.mem_append.mp h with hscalar | hother
  · obtain ⟨s, -, rfl⟩ := List.mem_map.mp hscalar
    exact ⟨_, rfl, s.width_pos⟩
  · simp only [List.mem_cons, List.not_mem_nil, or_false] at hother
    rcases hother with rfl | rfl | rfl | rfl
    all_goals exact ⟨_, rfl, Nat.succ_pos _⟩

theorem factory_of_mem (s : CatalogSettings) (h : t ∈ CatalogSettings.elementTypes) :
    ∃ c : Collection t.Value, Factory.ofCollection c s.staging ∈ s.factories := by
  obtain ⟨codec, hcodec, hpos⟩ := codec?_of_mem s.hostOrder h
  refine ⟨⟨codec, hpos⟩, List.mem_filterMap.mpr ⟨t, h, ?_⟩⟩
  simp [hcodec, Collection.ofCodec?, hpos]

theorem lookup_builtin_of_mem {s : CatalogSettings} (hb : b ∈ s.elementBindings ++ [⟨.text, .text⟩,
    ⟨.option .text, .optionalText⟩, ⟨.bytes, .bytes⟩]) : (s.builtin.lookup b.type).isSome :=
  List.lookup_isSome_iff.mpr ⟨(b.type, b), List.mem_map.mpr ⟨b, hb, rfl⟩, beq_self_eq_true b.type⟩

/-- **Every known type has a format**, whatever was looked up or added before. -/
theorem Stock.resolves (h : c.Stock within) (hknown : Known t) : ∃ f, (c.resolve t).1 = .ok f := by
  cases hknown with
  | element ht =>
    obtain ⟨codec, hcodec, -⟩ := codec?_of_mem c.settings.hostOrder ht
    have hmem : (⟨t, .scalar codec.element⟩ : Binding) ∈ c.settings.elementBindings :=
      List.mem_filterMap.mpr ⟨t, ht, by simp [hcodec]⟩
    exact h.resolves_of_builtin (lookup_builtin_of_mem (List.mem_append_left _ hmem))
  | text => exact h.resolves_of_builtin (lookup_builtin_of_mem (b := ⟨.text, .text⟩) (by simp))
  | optionalText =>
    exact h.resolves_of_builtin (lookup_builtin_of_mem (b := ⟨.option .text, .optionalText⟩) (by simp))
  | bytes => exact h.resolves_of_builtin (lookup_builtin_of_mem (b := ⟨.bytes, .bytes⟩) (by simp))
  | collection shape ht =>
    obtain ⟨_, hf⟩ := factory_of_mem c.settings ht
    exact h.resolves_of_factory hf (by simp [Factory.answer?, Factory.ofCollection, Option.filter])
  | optionalCollection shape ht =>
    obtain ⟨_, hf⟩ := factory_of_mem c.settings ht
    exact h.resolves_of_factory hf (by simp [Factory.answer?, Factory.ofCollection, Option.filter])

/-! ### Lookups once more -/

theorem answer?_keep (hb : b.type = t) (hanswer : c.answer? t = some b) : (c.keep b).answer? t = some b := by
  unfold Catalog.keep
  split
  · exact hanswer
  · apply answer?_of_direct?
    subst hb
    simp [direct?, Table.bind]

theorem answer?_keep_of_ne (hb : b.type ≠ t) : (c.keep b).answer? t = c.answer? t := by
  have hlookup : (c.bound.bind b).lookup t = c.bound.lookup t := by
    rw [Table.bind, List.lookup_cons, beq_false_of_ne hb.symm]
  unfold Catalog.keep
  split
  · rfl
  · simp only [answer?, direct?, firstAnswer?, hlookup]

theorem answer?_keep_eq (hb : b.type = t) (hanswer : c.answer? t = some b) (t' : Ty) :
    (c.keep b).answer? t' = c.answer? t' := by
  by_cases htype : t = t'
  · subst htype
    rw [answer?_keep hb hanswer, hanswer]
  · exact answer?_keep_of_ne (hb ▸ htype)

/-- A lookup leaves all answers as they were, if what the catalog holds for a type is of that type. -/
theorem answer?_afterLookup (htype : ∀ b, c.direct? t = some b → b.type = t) (t' : Ty) :
    (c.afterLookup t).answer? t' = c.answer? t' := by
  unfold Catalog.afterLookup
  split
  case h_1 b hb => exact answer?_keep_eq (htype b hb) (answer?_of_direct? hb) t'
  case h_2 hnone =>
    split
    case h_1 b ha =>
      have hanswer : c.answer? t = some b := by simp [answer?, hnone, ha]
      exact answer?_keep_eq (type_of_firstAnswer? ha) hanswer t'
    case h_2 => rfl

theorem Stock.answer?_afterLookup (h : c.Stock within) (t t' : Ty) : (c.afterLookup t).answer? t' = c.answer? t' :=
  Catalog.answer?_afterLookup (fun _ hb => (h.of_direct? hb).1) t'

theorem Stock.resolve_afterLookup (h : c.Stock within) (t t' : Ty) :
    ((c.afterLookup t).resolve t').1 = (c.resolve t').1 := by
  simp only [resolve, h.answer?_afterLookup t t']

end Catalog

end MessageWire
