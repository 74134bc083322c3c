import MessageWire.Value.Type
/-!
# The catalog of formats

A catalog finds the format of a type. It is asked in four places: what was bound before, what was
registered, the formats that every catalog has, and last the factories in the order in which they were
added. `Catalog.answer?` is that order. What an answer binds is kept, so that it stays the answer:
`Catalog.resolve` is a lookup together with the catalog afterwards.

A factory may answer with a format for another type than the one asked for; such answers count as none.
-/

namespace MessageWire

/-! ### Bindings -/

/-- A format together with its type. -/
structure Binding where
  type : Ty
  format : Format type.Value

/-- The format in a binding, if it is one for `t`. -/
def Binding.formatFor? (b : Binding) (t : Ty) : Option (Format t.Value) :=
  if h : b.type = t then some (h ▸ b.format) else none

theorem Binding.formatFor?_self (b : Binding) : b.formatFor? b.type = some b.format := by
  simp [formatFor?]

abbrev Table := List (Ty × Binding)

def Table.ofBindings (bs : List Binding) : Table := bs.map fun b => (b.type, b)

/-- The table with a binding under its own type, in front of all others. -/
def Table.bind (table : Table) (b : Binding) : Table := (b.type, b) :: table

/-! ### Factories -/

/-- What a factory answers: a binding, and whether it may be kept for later lookups. -/
structure Answer where
  binding : Binding
  keep : Bool

/-- A source of formats that is asked for types no other format is known for. -/
abbrev Factory := Ty → Option Answer

/-- The answer of a factory for `t`, if it is one for `t` itself. -/
def Factory.answer? (f : Factory) (t : Ty) : Option Answer := (f t).filter (·.binding.type = t)

/-- The factory that knows the collections of one element type, of every kind, with and without
null. -/
def Factory.ofCollection {element : Ty} (c : Collection element.Value) (limits : StagingLimits) : Factory
  | .collection shape t =>
    if t = element then
      some ⟨⟨.collection shape element, .collection (shape.holder element.Value) c limits⟩, true⟩
    else none
  | .option (.collection shape t) =>
    if t = element then
      some ⟨⟨.option (.collection shape element),
        .optionalCollection (shape.holder element.Value) c limits⟩, true⟩
    else none
  | _ => none

/-! ### Catalogs -/

structure CatalogSettings where
  staging : StagingLimits := {}
  hostOrder : ByteOrder := .little
  deriving DecidableEq

namespace CatalogSettings

def elementTypes : List Ty := Scalar.all.map .scalar ++ [.bool, .char, .usize, .isize]

def elementBindings (s : CatalogSettings) : List Binding :=
  elementTypes.filterMap fun t => (t.codec? s.hostOrder).map fun codec => ⟨t, .scalar codec.element⟩

def builtin (s : CatalogSettings) : Table :=
  .ofBindings (s.elementBindings ++ [⟨.text, .text⟩, ⟨.option .text, .optionalText⟩, ⟨.bytes, .bytes⟩])

/-- The factories that every catalog starts with: one for each element type. -/
def factories (s : CatalogSettings) : List Factory :=
  elementTypes.filterMap fun t => do
    let codec ← t.codec? s.hostOrder
    let c ← Collection.ofCodec? codec
    return .ofCollection c s.staging

end CatalogSettings

/-- The formats known, and those that lookups have bound. -/
structure Catalog where
  settings : CatalogSettings
  registered : Table := []
  factories : List Factory
  bound : Table := []

namespace Catalog

def ofSettings (settings : CatalogSettings) : Catalog := { settings, factories := settings.factories }

/-! ### Lookups -/

def direct? (c : Catalog) (t : Ty) : Option Binding :=
  c.bound.lookup t <|> c.registered.lookup t <|> c.settings.builtin.lookup t

def firstAnswer? (c : Catalog) (t : Ty) : Option Answer := c.factories.findSome? (·.answer? t)

def answer? (c : Catalog) (t : Ty) : Option Binding :=
  c.direct? t <|> (c.firstAnswer? t).map (·.binding)

/-- The number of factories that a lookup of a type asks: none if it finds a binding elsewhere, else
all up to the first that answers. -/
def asked (c : Catalog) (t : Ty) : Nat :=
  if (c.direct? t).isSome then 0
  else min (c.factories.findIdx (fun f => (f.answer? t).isSome) + 1) c.factories.length

/-- The catalog with a binding kept, unless the type has one already. -/
def keep (c : Catalog) (b : Binding) : Catalog :=
  if (c.bound.lookup b.type).isSome then c else { c with bound := c.bound.bind b }

def afterLookup (c : Catalog) (t : Ty) : Catalog :=
  match c.direct? t with
  | some b => c.keep b
  | none =>
    match c.firstAnswer? t with
    | some ⟨b, true⟩ => c.keep b
    | _ => c

/-- Looks a type up: its format, and the catalog afterwards. -/
def resolve (c : Catalog) (t : Ty) : Except ValueError (Format t.Value) × Catalog :=
  let format? := (c.answer? t).bind (·.formatFor? t)
  (match format? with | some format => .ok format | none => .error (.unsupportedType t.name),
    c.afterLookup t)

/-! ### Additions -/

/-- Whether a type has a binding that may not be replaced. -/
def isBound (c : Catalog) (t : Ty) : Bool := (c.bound.lookup t).isSome || (c.registered.lookup t).isSome

/-- Registers a format for a type, in front of the formats that every catalog has. -/
def register (c : Catalog) (b : Binding) : Except ValueError Catalog :=
  if c.isBound b.type then .error (.alreadyBound b.type.name)
  else .ok { c with registered := c.registered.bind b }

/-- Adds a factory, which is asked after those added before. -/
def addFactory (c : Catalog) (f : Factory) : Catalog := { c with factories := c.factories ++ [f] }

/-- Registers a plain type, and adds a factory for its collections. -/
def registerPlain (c : Catalog) (t : Ty) (p : Plain t.Value) (hpos : 0 < p.size) :
    Except ValueError Catalog :=
  let codec : Codec t.Value := .block p c.settings.hostOrder
  (c.register ⟨t, .scalar codec.element⟩).map
    (·.addFactory (.ofCollection ⟨codec, hpos⟩ c.settings.staging))

/-! ### Whole values -/

def withFormat {α : Type} (c : Catalog) (t : Ty) (act : Format t.Value → Except ValueError α) :
    Except ValueError α × Catalog :=
  let (format, c') := c.resolve t
  (format.bind act, c')

def toBytes (c : Catalog) (t : Ty) (v : t.Value) : Except ValueError Bytes × Catalog :=
  c.withFormat t (·.toBytes v)

/-- The value that the given bytes are the encoding of. -/
def fromBytes (c : Catalog) (t : Ty) (src : Bytes) : Except ValueError t.Value × Catalog :=
  c.withFormat t (·.fromBytes t.name src)

end Catalog

end MessageWire
