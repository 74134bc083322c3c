import MessageWire.Proofs.Catalog.Coding
import MessageWire.Proofs.Catalog.Permanence
import MessageWire.Proofs.Value.Canonical
/-!
# Encoding with a catalog what it decoded

A catalog that was asked for nothing but what the library supplies offers only formats that the library supplies
(`Catalog.OffersSupplied.after`). What they read is written as it was read, but for the header and truth values, which
may come out shorter and plainer (`Catalog.encode_decode`). The codecs that callers make may forget whatever they like.
-/

namespace MessageWire

/-! ### What a catalog offers -/

/-- A binding to a format that the library supplies. -/
def Binding.Supplied (b : Binding) : Prop := Format.Supplied b.type b.format

/-- A factory that answers with formats that the library supplies. -/
def Factory.Supplied (f : Factory) : Prop := ∀ t a, f t = some a → a.binding.Supplied

theorem Factory.supplied_ofCollection {element : Ty} (c : Collection element.Value) (h : c.codec.Supplied element)
    (limits : StagingLimits) : (Factory.ofCollection c limits).Supplied := by
  intro t a hanswer
  unfold Factory.ofCollection at hanswer
  split at hanswer
  · split at hanswer
    · cases hanswer
      exact .collection _ c h limits
    · cases hanswer
  · split at hanswer
    · cases hanswer
      exact .optionalCollection _ c h limits
    · cases hanswer
  · cases hanswer

namespace Catalog

variable {c c' : Catalog} {t : Ty} {b : Binding}

/-- A binding that a catalog may answer with. -/
inductive Offers (c : Catalog) : Binding → Prop where
  | bound {t : Ty} {b : Binding} (h : (t, b) ∈ c.bound) : Offers c b
  | registered {t : Ty} {b : Binding} (h : (t, b) ∈ c.registered) : Offers c b
  | builtin {t : Ty} {b : Binding} (h : (t, b) ∈ c.settings.builtin) : Offers c b
  | factory {f : Factory} {t : Ty} {a : Answer} (hf : f ∈ c.factories) (h : f t = some a) : Offers c a.binding

theorem offers_of_direct? (h : c.direct? t = some b) : c.Offers b := by
  simp only [direct?, Option.orElse_eq_orElse, Option.orElse_eq_or, Option.or_eq_some_iff] at h
  rcases h with hbound | ⟨-, hregistered | ⟨-, hbuiltin⟩⟩
  · exact .bound (Table.mem_of_lookup hbound)
  · exact .registered (Table.mem_of_lookup hregistered)
  · exact .builtin (Table.mem_of_lookup hbuiltin)

theorem offers_of_firstAnswer? {a : Answer} (h : c.firstAnswer? t = some a) : c.Offers a.binding := by
  obtain ⟨f, hf, hanswer⟩ := List.exists_of_findSome?_eq_some h
  exact .factory hf (Option.filter_eq_some_iff.mp hanswer).1

theorem offers_of_answer? (h : c.answer? t = some b) : c.Offers b := by
  simp only [answer?, Option.orElse_eq_orElse, Option.orElse_eq_or, Option.or_eq_some_iff] at h
  rcases h with hdirect | ⟨-, hfirst⟩
  · exact offers_of_direct? hdirect
  · obtain ⟨a, ha, rfl⟩ := Option.map_eq_some_iff.mp hfirst
    exact offers_of_firstAnswer? ha

/-- All that a catalog may answer with is supplied by the library. -/
def OffersSupplied (c : Catalog) : Prop := ∀ b, c.Offers b → b.Supplied

theorem OffersSupplied.of_resolve (h : c.OffersSupplied) {f : Format t.Value} (hresolve : (c.resolve t).1 = .ok f) :
    Format.Supplied t f :=
  h _ (offers_of_answer? (answer?_of_resolve hresolve))

/-! ### What keeps the offers supplied -/

theorem offersSupplied_ofSettings (s : CatalogSettings) : (ofSettings s).OffersSupplied := by
  intro b hb
  cases hb with
  | bound h => cases h
  | registered h => cases h
  | builtin h =>
    obtain ⟨b, hb, hsame⟩ := List.mem_map.mp h
    cases hsame
    rcases List.mem_append.mp hb with helement | hother
    · obtain ⟨t, -, hb⟩ := List.mem_filterMap.mp helement
      obtain ⟨codec, hcodec, rfl⟩ := Option.map_eq_some_iff.mp hb
      exact .single (.own hcodec)
    · simp only [List.mem_cons, List.not_mem_nil, or_false] at hother
      rcases hother with rfl | rfl | rfl
      · exact .text
      · exact .optionalText
      · exact .bytes
  | factory hf h =>
    obtain ⟨t, -, hf⟩ := List.mem_filterMap.mp hf
    simp only [Option.bind_eq_bind, Option.bind_eq_some_iff] at hf
    obtain ⟨codec, hcodec, c, hc, hf⟩ := hf
    cases hf
    have hsupplied : c.codec.Supplied t := by
      unfold Collection.ofCodec? at hc
      split at hc
      · cases hc
        exact .own hcodec
      · cases hc
    exact Factory.supplied_ofCollection c hsupplied s.staging _ _ h

theorem OffersSupplied.keep (h : c.OffersSupplied) (hb : b.Supplied) : (c.keep b).OffersSupplied := by
  unfold Catalog.keep
  split
  case isTrue => exact h
  case isFalse =>
    intro b' hb'
    cases hb' with
    | bound hmem =>
      rcases List.mem_cons.mp hmem with hsame | hmem
      · cases hsame
        exact hb
      · exact h b' (.bound hmem)
    | registered hmem => exact h b' (.registered hmem)
    | builtin hmem => exact h b' (.builtin hmem)
    | factory hf hanswer => exact h _ (.factory hf hanswer)

theorem OffersSupplied.afterLookup (h : c.OffersSupplied) (t : Ty) : (c.afterLookup t).OffersSupplied := by
  unfold Catalog.afterLookup
  split
  case h_1 b hb => exact h.keep (h b (offers_of_direct? hb))
  case h_2 =>
    split
    case h_1 b ha => exact h.keep (h b (offers_of_firstAnswer? ha))
    case h_2 => exact h

theorem OffersSupplied.register (h : c.OffersSupplied) (hb : b.Supplied) (hregister : c.register b = .ok c') :
    c'.OffersSupplied := by
  rw [register_eq_ok hregister]
  intro b' hb'
  cases hb' with
  | bound hmem => exact h b' (.bound hmem)
  | registered hmem =>
    rcases List.mem_cons.mp hmem with hsame | hmem
    · cases hsame
      exact hb
    · exact h b' (.registered hmem)
  | builtin hmem => exact h b' (.builtin hmem)
  | factory hf hanswer => exact h _ (.factory hf hanswer)

theorem OffersSupplied.addFactory (h : c.OffersSupplied) {f : Factory} (hf : f.Supplied) :
    (c.addFactory f).OffersSupplied := by
  intro b hb
  cases hb with
  | bound hmem => exact h b (.bound hmem)
  | registered hmem => exact h b (.registered hmem)
  | builtin hmem => exact h b (.builtin hmem)
  | factory hg hanswer =>
    rcases List.mem_append.mp hg with hold | hnew
    · exact h _ (.factory hold hanswer)
    · obtain rfl := List.mem_singleton.mp hnew
      exact hf _ _ hanswer

/-- What is asked of a catalog is for nothing but what the library supplies. -/
def Request.Supplied : Request → Prop
  | .use _ _ => True
  | .register b => b.Supplied
  | .registerPlain t _ _ => t.plain?.isSome
  | .addFactory f => f.Supplied

theorem OffersSupplied.perform (h : c.OffersSupplied) {request : Request} (hrequest : request.Supplied) :
    (c.perform request).2.OffersSupplied := by
  cases request with
  | use t act => exact h.afterLookup t
  | register b =>
    show (c.settleAddition (c.register b)).2.OffersSupplied
    cases hregister : c.register b with
    | error e => exact h
    | ok c' => exact h.register hrequest hregister
  | registerPlain t p hpos =>
    have hcodec : (Codec.block p c.settings.hostOrder).Supplied t := .plain hrequest p _
    have hbinding : Binding.Supplied ⟨t, .scalar (Codec.block p c.settings.hostOrder).element⟩ := .single hcodec
    have hplain : c.registerPlain t p hpos
      = (c.register ⟨t, .scalar (Codec.block p c.settings.hostOrder).element⟩).map
        (·.addFactory (.ofCollection ⟨.block p c.settings.hostOrder, hpos⟩ c.settings.staging)) := rfl
    show (c.settleAddition (c.registerPlain t p hpos)).2.OffersSupplied
    rw [hplain]
    cases hregister : c.register ⟨t, .scalar (Codec.block p c.settings.hostOrder).element⟩ with
    | error e => exact h
    | ok c' => exact (h.register hbinding hregister).addFactory (Factory.supplied_ofCollection _ hcodec _)
  | addFactory f => exact h.addFactory hrequest

theorem OffersSupplied.after (h : c.OffersSupplied) {requests : List Request}
    (hrequests : ∀ request ∈ requests, request.Supplied) : (c.after requests).OffersSupplied := by
  induction requests generalizing c with
  | nil => exact h
  | cons request requests ih =>
    exact ih (h.perform (hrequests request List.mem_cons_self))
      fun request' hmem => hrequests request' (List.mem_cons_of_mem _ hmem)

/-! ### Encoding what was decoded -/

/-- **Encoding undoes decoding** up to canonical bytes. The bytes behind a value do not matter, and those that it was
read from come back exactly if they were canonical. -/
theorem encode_decode (s : CatalogSettings) {requests : List Request}
    (hrequests : ∀ request ∈ requests, request.Supplied) {f : Format t.Value}
    (hresolve : (((ofSettings s).after requests).resolve t).1 = .ok f) {src : Bytes} {v : t.Value} {n : Nat}
    (hread : f.read src = .ok (v, n)) :
    let encoded := (((ofSettings s).after requests).toBytes t v).1
    n ≤ src.length ∧
      (∀ src' : Bytes, src'.take n = src.take n → f.read src' = .ok (v, n)) ∧
      f.encodedSize v ≤ n ∧
      (src.length ≤ maxWord →
        (∃ header, t.HeaderFor src header ∧ encoded = .ok (header ++ (t.body src n).map t.element.settled)) ∧
          (encoded = .ok (src.take n) ↔ t.Canonical src n)) := by
  intro encoded
  have hsupplied := ((offersSupplied_ofSettings s).after hrequests).of_resolve hresolve
  obtain ⟨hle, hlocal⟩ := hsupplied.stock.local_read src (v, n) hread
  obtain ⟨hsize, header, hheader, hencodes⟩ := hsupplied.recodes src v n hread
  have hlength : (header ++ (t.body src n).map t.element.settled).length ≤ n := by
    have hless := hheader.length_le
    rw [List.length_append, List.length_map, Ty.body, List.length_drop, List.length_take, Nat.min_eq_left hle]
    omega
  refine ⟨hle, fun src' hsame => ?_, Nat.le_trans hencodes.encodedSize_le hlength, fun hword => ?_⟩
  · have hread' := hlocal (src'.drop n)
    rwa [← hsame, List.take_append_drop] at hread'
  · have hwrites := hencodes.writes (Nat.le_trans hlength (Nat.le_trans hle hword))
    have hencoded : encoded = .ok (header ++ (t.body src n).map t.element.settled) := by
      change (((ofSettings s).after requests).toBytes t v).1 = _
      rw [toBytes_of_resolve hresolve, hwrites.toBytes]
    refine ⟨⟨header, hheader, hencoded⟩, ?_⟩
    rw [hencoded, Except.ok.injEq]
    exact Ty.recoded_eq_iff hheader hsize

/-- Two truth values behind a header that is wider than it has to be and has a bit that means nothing. -/
theorem encode_decode_of_wide_header :
    let requests : List Request := [.registerPlain (.array .u16 2) (.array (.word 2) 2) (by decide)]
    let c := (ofSettings { hostOrder := .big }).after requests
    let t : Ty := .option (.collection .list .bool)
    ∃ f, (c.resolve t).1 = .ok f ∧ (∀ rest, f.read ([0x42, 2, 0, 1, 7] ++ rest) = .ok (some [true, true], 5)) ∧
      (c.toBytes t (some [true, true])).1 = .ok [1, 2, 1, 1] := by
  intro requests c t
  let f : Format t.Value :=
    .optionalCollection (Shape.list.holder Bool) ⟨.loop (Ty.boolCodec .big), by decide⟩ {}
  have hrequests : ∀ request ∈ requests, request.Supplied := by
    intro request hmem
    obtain rfl := List.mem_singleton.mp hmem
    rfl
  have hresolve : (c.resolve t).1 = .ok f := rfl
  have hread : f.read [0x42, 2, 0, 1, 7, 9] = .ok (some [true, true], 5) := by with_unfolding_all rfl
  obtain ⟨-, hlocal, -, hword⟩ := encode_decode _ hrequests hresolve hread
  obtain ⟨⟨header, hheader, hencoded⟩, -⟩ := hword (by decide)
  cases hheader
  exact ⟨f, hresolve, fun rest => hlocal _ rfl, hencoded⟩

end Catalog

end MessageWire
