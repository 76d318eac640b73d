import Schematic.Text.Blank
import Schematic.Text.Segments

/-!
# Model aliases

The documentation of a model may give it other names, as in
`@PrismaSelect.map([Account, Profile])`. The first such annotation that is
closed on its own line counts, and it ends at the first `])` behind it.
-/

namespace Schematic.Alias

/-- How an annotation starts. -/
def opening : List Char :=
  "@PrismaSelect.map([".toList

/-- The text before the first `])`, if there is one on the line. -/
def body? : List Char → Option (List Char)
  | [] => none
  | c :: rest =>
    if [']', ')'].isPrefixOf (c :: rest) then some []
    else if c = '\n' then none
    else (body? rest).map (c :: ·)

/-- The inside of the first annotation that is closed. -/
def listing? : List Char → Option (List Char)
  | [] => none
  | c :: rest =>
    match opening.isPrefixOf? (c :: rest) >>= body? with
    | some body => some body
    | none => listing? rest

/-- The items of a list with commas, without white space around them and
without empty ones. -/
def items (body : List Char) : List String :=
  (((Text.segments ',' body).map Text.trim).filter (· ≠ [])).map String.ofList

/-- The names a documentation text gives. -/
def ofDocumentation (text : String) : List String :=
  match listing? text.toList with
  | some body => items body
  | none => []

end Schematic.Alias
