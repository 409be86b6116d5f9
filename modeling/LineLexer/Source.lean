/-!
The lines of a source.

Physical lines end at line feeds.  One carriage return directly before the line feed belongs
to the line end; a last line without a line feed is a line unless it is empty.  A physical
line that ends in a backslash is continued by the next one, and the lines joined in this
way make a logical line.
-/

namespace LineLexer

/-- A line as a lexer sees it, with the number of its first physical line, from one. -/
structure LogicalLine where
  number : Nat
  text : List Char
deriving DecidableEq

/-- The physical lines of a text, without their ends. -/
def physicalLines : List Char → List (List Char)
  | [] => []
  | '\n' :: rest => [] :: physicalLines rest
  | '\r' :: '\n' :: rest => [] :: physicalLines rest
  | c :: rest =>
      match physicalLines rest with
      | [] => [[c]]
      | line :: lines => (c :: line) :: lines

/-- The text before the backslash at its end, if there is one. -/
def beforeBackslash? (text : List Char) : Option (List Char) :=
  match text.reverse with
  | '\\' :: rest => some rest.reverse
  | _ => none

/-- Joins continued lines.  The first argument is the logical line that is still open,
without the backslash that continues it; the second is the number of the next physical line.
Whether a line goes on is decided on the text joined so far.  A continuation on the last
line only loses its backslash. -/
def joinLines : Option LogicalLine → Nat → List (List Char) → List LogicalLine
  | carried, _, [] => carried.toList
  | carried, number, line :: rest =>
      let joined : LogicalLine := match carried with
        | some first => { first with text := first.text ++ line }
        | none => ⟨number, line⟩
      match beforeBackslash? joined.text with
      | some text => joinLines (some { joined with text }) (number + 1) rest
      | none => joined :: joinLines none (number + 1) rest

/-- A named source text. -/
structure Source where
  name : String
  text : String
deriving DecidableEq

namespace Source

/-- The physical lines of a source. -/
def lines (source : Source) : List (List Char) :=
  physicalLines source.text.toList

/-- The number of physical lines. -/
def lineCount (source : Source) : Nat :=
  source.lines.length

/-- The physical line with the given number, counted from one. -/
def line? (source : Source) (number : Nat) : Option (List Char) :=
  if number = 0 then none else source.lines[number - 1]?

/-- The logical lines of a source. -/
def logicalLines (source : Source) : List LogicalLine :=
  joinLines none 1 source.lines

end Source

end LineLexer
