import MessageWire.Text
import MessageWire.Value.Catalog
/-!
# Descriptions

One-line descriptions of the parts that encode values, for logs and inspection. They name a part by its
settings, never by the values that pass through it.
-/

namespace MessageWire

open Text (record quoted)

def ByteOrder.description : ByteOrder → String
  | .little => "Little"
  | .big => "Big"

def StagingTier.description : StagingTier → String
  | .pooled => "Pooled"
  | .oneShot => "OneShot"
  | .chunked => "Chunked"

def StagingLimits.description (limits : StagingLimits) : String :=
  record "StagingConfig"
    [("pool_threshold", toString limits.poolThreshold), ("max_buffer_size", toString limits.maxBufferSize),
      ("pool_capacity", toString limits.poolCapacity)]

/-- Staging under its limits, with the number of buffers in the pool. -/
def StagingLimits.poolDescription (limits : StagingLimits) (pooled : Nat) : String :=
  record "StagingPolicy" [("config", limits.description), ("pooled", toString pooled)]

def Ty.description (t : Ty) : String := quoted t.name

def Collection.description (element : Ty) (limits : StagingLimits) (pooled : Nat) : String :=
  record "CollectionParser" [("element", element.description), ("staging", limits.poolDescription pooled)]

def Factory.description (element : Ty) : String :=
  record "CollectionFactory" [("element", element.description)]

/-- The encoding of the elements of a plain type as a block. -/
def Codec.blockDescription (element : Ty) (order : ByteOrder) : String :=
  record "BlockCopyCodec" [("element", element.description), ("order", order.description)]

def Codec.loopDescription (element : Ty) (size : Nat) (order : ByteOrder) : String :=
  record "ConvertCodec"
    [("value", element.description), ("wire_size", toString size), ("order", order.description)]

def Binding.description (b : Binding) : String := record "ErasedParser" [("type", b.type.description)]

def CatalogSettings.description (s : CatalogSettings) : String :=
  record "SerializerConfig" [("staging", s.staging.description), ("host_order", s.hostOrder.description)]

/-- A catalog, with the number of formats that it always has and of those that lookups have bound. -/
def Catalog.description (c : Catalog) : String :=
  record "Serializer"
    [("config", c.settings.description), ("builtin", toString c.settings.builtin.length),
      ("resolved", toString c.bound.length)]

end MessageWire
