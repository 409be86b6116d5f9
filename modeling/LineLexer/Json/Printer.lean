import LineLexer.Json.Value
/-!
Printing values part by part.

A type that is printed as JSON hands its parts to a printer: strings and numbers as they are, and
containers with the texts of their parts.  An array is announced with the number of its items before
the first of them comes.  What the text of a part looks like is up to the printer; one that follows
a layout prints the texts that values have in it.
-/

namespace LineLexer.Json

/-- How the parts of values are printed.  Containers stand at a depth. -/
structure Printer where
  string : String → List Char
  number : Nat → List Char
  /-- An array, given the number of items that is announced and the texts of those that come. -/
  array : (depth announced : Nat) → List (List Char) → List Char
  /-- An object, given the keys of its members and the texts of their values. -/
  object : (depth : Nat) → List (String × List Char) → List Char

/-- A printer escapes in strings only what must be escaped, writes numbers of 64 bits in decimal
notation, and puts the parts of containers into a layout.  Nothing is said of arrays with another
number of items than announced. -/
structure Printer.Follows (printer : Printer) (layout : Layout) : Prop where
  string_eq : ∀ text, printer.string text = quote text
  number_eq : ∀ n < Nat.pow 2 64, printer.number n = decimal n
  array_eq : ∀ depth items,
    printer.array depth items.length items = layout.enclose depth '[' ']' items
  object_eq : ∀ depth members, printer.object depth members =
    layout.enclose depth '\x7b' '\x7d'
      (members.map fun member => quote member.1 ++ layout.colon ++ member.2)

/-- The printer for a layout.  It closes an array that is announced as empty at once. -/
def Layout.printer (layout : Layout) : Printer where
  string := quote
  number := decimal
  array depth announced items :=
    if announced = 0 then ['[', ']'] else layout.enclose depth '[' ']' items
  object depth members :=
    layout.enclose depth '\x7b' '\x7d'
      (members.map fun member => quote member.1 ++ layout.colon ++ member.2)

theorem Layout.printer_follows (layout : Layout) : layout.printer.Follows layout where
  string_eq _ := rfl
  number_eq _ _ := rfl
  array_eq depth items := by
    cases items with
    | nil => rfl
    | cons item items => rfl
  object_eq _ _ := rfl

end LineLexer.Json
