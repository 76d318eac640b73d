import Schematic.Json.Decode

/-!
# Settings

What the tables and forms of the admin panel have in common.
-/

namespace Schematic

open Json (Decoder Fields)

/-- The settings of the admin panel. -/
structure Settings where
  /-- The rows fetched for a page. -/
  pageSize : UInt32 := 10
  /-- Whether updated values are wrapped in a `set`. -/
  useSet : Bool := true

namespace Settings

/-- Reads settings; each may be missing. -/
def decode : Decoder Settings := fun depth w => do
  let fields ← Fields.ofWritten? ["pageSize", "useSet"] depth w
  let pageSize ← fields.optional "pageSize" 10 (.natBelow UInt32.size)
  return {
    pageSize := UInt32.ofNat pageSize
    useSet := ← fields.optional "useSet" true .bool }

/-- The settings of a JSON text. -/
def ofText? (text : String) : Option Settings :=
  decode.ofText? text

end Settings

end Schematic
