/-!
# Paragraphs

Generated texts come in paragraphs with an empty line between them. An empty
paragraph leaves no gap: `paragraphs_cons_empty`.
-/

namespace Schematic.Text

/-- Texts with an empty line between them, without the empty ones. -/
def paragraphs (texts : List String) : String :=
  "\n\n".intercalate (texts.filter (· ≠ ""))

/-- An empty text is left out. -/
@[simp] theorem paragraphs_cons_empty (texts : List String) :
    paragraphs ("" :: texts) = paragraphs texts := rfl

end Schematic.Text
