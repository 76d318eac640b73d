import Schematic.Json.Decode
import Schematic.Request.Basic

/-!
# Requests as JSON

A request is written with its name, label, arguments and sub-requests, always
all four of them; only the name has to be there where one is read.
-/

namespace Schematic.Request

open Json (Decoder Fields Value)

mutual
/-- The JSON form of a request. -/
def toValue : Request → Value
  | ⟨name, label, args, groups⟩ =>
    .object [("name", .string name), ("alias", .string label), ("args", .object args),
      ("fieldsByTypeName", .object (groupValues groups))]
termination_by structural r => r

/-- The JSON form of sub-requests by type. -/
def groupValues : List (String × List (String × Request)) → List (String × Value)
  | [] => []
  | (type, entries) :: rest => (type, .object (entryValues entries)) :: groupValues rest
termination_by structural groups => groups

/-- The JSON form of sub-requests by label. -/
def entryValues : List (String × Request) → List (String × Value)
  | [] => []
  | (key, r) :: rest => (key, r.toValue) :: entryValues rest
termination_by structural entries => entries
end

/-- Reads a request with at most as many levels of requests as the first
argument says. -/
def decodeLevels : Nat → Decoder Request
  | 0 => fun _ _ => none
  | levels + 1 => fun depth w => do
    let fields ← Fields.ofWritten? ["name", "alias", "args", "fieldsByTypeName"] depth w
    return {
      name := ← fields.required "name" .string
      label := ← fields.optional "alias" "" .string
      args := ← fields.optional "args" [] (.keyed .value)
      groups := ← fields.optional "fieldsByTypeName" [] (.keyed (.keyed (decodeLevels levels))) }

/-- Reads a request. Every level lies at least one deeper than the one before,
so the nesting allowed bounds the levels. -/
def decode : Decoder Request := fun depth w =>
  decodeLevels (depth + 1) depth w

/-- The request of a JSON text. -/
def ofText? (text : String) : Option Request :=
  decode.ofText? text

end Schematic.Request
