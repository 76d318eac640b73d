/-!
# Titles

The heading a name is shown under: its words, each with a capital first letter.
Words are made of the letters and digits of ASCII, and everything else separates
them. They also end where a lower case letter meets an upper case one, and
before the last capital of a row of them that a lower case letter follows:
`HTTPServer_id2Name` is `Http Server Id2 Name`.
-/

namespace Schematic.Text

/-- The case of the last letter of a word, as far as it was looked at. -/
inductive Case where
  | neither
  | lower
  | upper
  deriving DecidableEq

/-- Cuts letters and digits into words. `word` is the start of the word at hand
in reverse, and `case` the case its part before the next character ends in. -/
def cutWords (case : Case) (word : List Char) : List Char → List (List Char)
  | [] => []
  | [c] => [(c :: word).reverse]
  | c :: next :: rest =>
    let reached := if c.isLower then .lower else if c.isUpper then .upper else case
    if reached = .lower ∧ next.isUpper then
      (c :: word).reverse :: cutWords .neither [] (next :: rest)
    else if case = .upper ∧ c.isUpper ∧ next.isLower then
      word.reverse :: cutWords .neither [c] (next :: rest)
    else
      cutWords reached (c :: word) (next :: rest)

/-- The stretches of letters and digits of a text; some may be empty. -/
def stretches : List Char → List (List Char)
  | [] => [[]]
  | c :: rest =>
    if c.isAlphanum then
      match stretches rest with
      | [] => [[c]]
      | first :: more => (c :: first) :: more
    else [] :: stretches rest

/-- The words of a name. -/
def words (name : List Char) : List (List Char) :=
  (stretches name).flatMap (cutWords .neither [])

/-- A word with a capital first letter and the others in lower case. -/
def titleWord : List Char → List Char
  | [] => []
  | first :: rest => first.toUpper :: rest.map Char.toLower

/-- The title of a name. -/
def title (name : String) : String :=
  " ".intercalate ((words name.toList).map fun word => String.ofList (titleWord word))

end Schematic.Text
