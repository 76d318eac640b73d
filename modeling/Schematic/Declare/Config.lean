import Schematic.Json.Decode

/-!
# Declaration settings

How generated declarations refer to what they do not declare themselves, and
how scalars are rendered in them.
-/

namespace Schematic

open Json (Decoder Fields)

/-- The settings of generated declarations. -/
structure Config where
  /-- The module the client's names come from. -/
  clientImport : String := "@prisma/client"
  /-- The module the resolvers' context type comes from. -/
  contextImport : String := "./context"
  /-- How scalars are rendered, where not as usual. -/
  scalars : Keyed String := []
  /-- Whether updates take plain values rather than update operations. -/
  plainUpdates : Bool := false

namespace Config

/-- How the known scalars are rendered as usual. -/
def usualScalars : Keyed String :=
  [("Int", "number"), ("Float", "number"), ("String", "string"), ("Boolean", "boolean"),
   ("DateTime", "Date"), ("Json", "any"), ("BigInt", "bigint"),
   ("Decimal", "Client.Prisma.Decimal"), ("Bytes", "Buffer")]

/-- How a scalar is rendered; one that is not known may be anything. -/
def scalar (config : Config) (name : String) : String :=
  ((Keyed.get? name config.scalars).or (Keyed.get? name usualScalars)).getD "any"

/-- Reads settings; each may be missing. -/
def decode : Decoder Config := fun depth w => do
  let fields ← Fields.ofWritten?
    ["clientImport", "contextImport", "scalars", "doNotUseFieldUpdateOperationsInput"] depth w
  let default : Config := {}
  return {
    clientImport := ← fields.optional "clientImport" default.clientImport .string
    contextImport := ← fields.optional "contextImport" default.contextImport .string
    scalars := ← fields.optional "scalars" default.scalars (.keyed .string)
    plainUpdates :=
      ← fields.optional "doNotUseFieldUpdateOperationsInput" default.plainUpdates .bool }

/-- The settings of a JSON text. -/
def ofText? (text : String) : Option Config :=
  decode.ofText? text

end Config

end Schematic
