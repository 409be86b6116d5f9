/-!
JSON values and their texts.

The members of an object keep their order and may repeat a key.  A value is written either
without any white space or with every element on a line of its own; the two forms differ in
a `Json.Layout` only.
-/

namespace LineLexer

/-- A number in decimal notation. -/
structure Json.Number where
  negative : Bool := false
  whole : Nat
  /-- The digits after the point, if there is one. -/
  fraction : List Char := []
  exponent : Option Int := none
deriving DecidableEq

/-- A JSON value. -/
inductive Json where
  | null
  | bool (value : Bool)
  | number (value : Json.Number)
  | string (text : String)
  | array (items : List Json)
  | object (members : List (String × Json))

namespace Json

/-- A natural number as a value. -/
def ofNat (n : Nat) : Json :=
  .number { whole := n }

/-- The natural number that a number stands for, if it is written as one. -/
def Number.natural? (number : Number) : Option Nat :=
  if !number.negative && number.fraction.isEmpty && number.exponent.isNone then
    some number.whole
  else none

/-- The decimal digits of a natural number. -/
def decimal (n : Nat) : List Char :=
  Nat.toDigits 10 n

/-- A number as text. -/
def Number.text (number : Number) : List Char :=
  (if number.negative then ['-'] else []) ++ decimal number.whole ++
    (if number.fraction.isEmpty then [] else '.' :: number.fraction) ++
    match number.exponent with
    | none => []
    | some (.ofNat n) => 'e' :: decimal n
    | some (.negSucc n) => 'e' :: '-' :: decimal (n + 1)

/-- A character inside a string.  Only quotes, backslashes and the characters below the
space are written in another way than as themselves. -/
def escape (c : Char) : List Char :=
  match c with
  | '"' => ['\\', '"']
  | '\\' => ['\\', '\\']
  | '\x08' => ['\\', 'b']
  | '\x09' => ['\\', 't']
  | '\x0a' => ['\\', 'n']
  | '\x0c' => ['\\', 'f']
  | '\x0d' => ['\\', 'r']
  | _ =>
      if c.toNat < 0x20 then
        ['\\', 'u', '0', '0', Nat.digitChar (c.toNat / 16), Nat.digitChar (c.toNat % 16)]
      else [c]

/-- A string as text, with its quotes. -/
def quote (text : String) : List Char :=
  '"' :: text.toList.flatMap escape ++ ['"']

/-- The white space between the parts of a value. -/
structure Layout where
  /-- What stands before an element at a depth, and before the bracket that ends it. -/
  gap : Nat → List Char
  /-- What stands between the key of a member and its value. -/
  colon : List Char

/-- No white space at all. -/
def Layout.compact : Layout :=
  ⟨fun _ => [], [':']⟩

/-- Every element on a line of its own, indented by two spaces for each level. -/
def Layout.pretty : Layout :=
  ⟨fun depth => '\n' :: List.replicate (2 * depth) ' ', [':', ' ']⟩

/-- The parts of a container at a depth between its brackets. -/
def Layout.enclose (layout : Layout) (depth : Nat) (opening closing : Char)
    (parts : List (List Char)) : List Char :=
  if parts.isEmpty then [opening, closing]
  else
    opening :: layout.gap (depth + 1) ++
      (',' :: layout.gap (depth + 1)).intercalate parts ++ layout.gap depth ++ [closing]

mutual

/-- A value at a depth as text. -/
def write (layout : Layout) (depth : Nat) : Json → List Char
  | .null => ['n', 'u', 'l', 'l']
  | .bool true => ['t', 'r', 'u', 'e']
  | .bool false => ['f', 'a', 'l', 's', 'e']
  | .number value => value.text
  | .string text => quote text
  | .array items => layout.enclose depth '[' ']' (writeItems layout (depth + 1) items)
  | .object members =>
      layout.enclose depth '\x7b' '\x7d' (writeMembers layout (depth + 1) members)

/-- The texts of the items of an array. -/
def writeItems (layout : Layout) (depth : Nat) : List Json → List (List Char)
  | [] => []
  | item :: rest => write layout depth item :: writeItems layout depth rest

/-- The texts of the members of an object. -/
def writeMembers (layout : Layout) (depth : Nat) : List (String × Json) → List (List Char)
  | [] => []
  | (key, value) :: rest =>
      (quote key ++ layout.colon ++ write layout depth value) ::
        writeMembers layout depth rest

end

/-- A value as text without white space. -/
def compact (value : Json) : String :=
  String.ofList (value.write .compact 0)

/-- A value as text with every element on a line of its own. -/
def pretty (value : Json) : String :=
  String.ofList (value.write .pretty 0)

end Json

end LineLexer
