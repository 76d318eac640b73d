/-!
# Starts and ends

What is left of a text without a given start or end.
-/

namespace Schematic.Text

/-- The text behind a given start, if it begins with it. -/
def afterStart? (start text : String) : Option String :=
  (start.toList.isPrefixOf? text.toList).map String.ofList

/-- The text before a given end, if it finishes with it. -/
def beforeEnd? (ending text : String) : Option String :=
  (ending.toList.isSuffixOf? text.toList).map String.ofList

/-- Whether a text begins with a given start. -/
def hasStart (start text : String) : Bool :=
  start.toList.isPrefixOf text.toList

/-- Whether a text finishes with a given end. -/
def hasEnd (ending text : String) : Bool :=
  ending.toList.isSuffixOf text.toList

end Schematic.Text
