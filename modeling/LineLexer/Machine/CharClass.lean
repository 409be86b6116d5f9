import LineLexer.Text.Alphabetic
import LineLexer.Text.Blank
import LineLexer.Machine.State
/-!
The classes into which a mode sorts the characters of a line.  The same character may mean
something else in another mode: `<` is an operator in code and opens a literal after an
include directive, and no character of an inline comment but white space means anything.
-/

namespace LineLexer

/-- The class of a character, which is all that the transition table sees of it. -/
inductive CharClass where
  | whitespace
  /-- Alphabetic characters and the underscore, exponent letters excepted. -/
  | letter
  /-- The letters `e`, `E`, `p` and `P`, which may introduce a signed exponent. -/
  | exponentLetter
  | digit
  | dot
  | doubleQuote
  | singleQuote
  | backslash
  | hash
  | slash
  | star
  | plus
  | minus
  | equals
  | bang
  | percent
  | caret
  | ampersand
  | pipe
  | colon
  | less
  | greater
  /-- Brackets and marks that are always tokens of their own. -/
  | punct
  /-- The sign `<` where it opens an include literal. -/
  | angleOpen
  /-- The sign `>` where it closes an include literal. -/
  | angleClose
  /-- A character of a comment that means nothing there. -/
  | commentChar
  | other
  /-- What follows the last character of a line. -/
  | endOfLine
deriving DecidableEq, Inhabited

/-- Every class. -/
def CharClass.all : List CharClass :=
  [.whitespace, .letter, .exponentLetter, .digit, .dot, .doubleQuote, .singleQuote,
    .backslash, .hash, .slash, .star, .plus, .minus, .equals, .bang, .percent, .caret,
    .ampersand, .pipe, .colon, .less, .greater, .punct, .angleOpen, .angleClose,
    .commentChar, .other, .endOfLine]

theorem CharClass.mem_all (kind : CharClass) : kind ∈ CharClass.all := by
  cases kind <;> decide

/-- The name under which diagnostics mention a class. -/
def CharClass.name : CharClass → String
  | .whitespace => "Whitespace"
  | .letter => "Letter"
  | .exponentLetter => "ExponentLetter"
  | .digit => "Digit"
  | .dot => "Dot"
  | .doubleQuote => "DoubleQuote"
  | .singleQuote => "SingleQuote"
  | .backslash => "Backslash"
  | .hash => "Hash"
  | .slash => "Slash"
  | .star => "Star"
  | .plus => "Plus"
  | .minus => "Minus"
  | .equals => "Equals"
  | .bang => "Bang"
  | .percent => "Percent"
  | .caret => "Caret"
  | .ampersand => "Ampersand"
  | .pipe => "Pipe"
  | .colon => "Colon"
  | .less => "Less"
  | .greater => "Greater"
  | .punct => "Punct"
  | .angleOpen => "AngleOpen"
  | .angleClose => "AngleClose"
  | .commentChar => "CommentChar"
  | .other => "Other"
  | .endOfLine => "EndOfLine"

/-- The class of a character of code that is not white space.  Digits are the ASCII digits;
the property Alphabetic decides only where no mark of the language does. -/
def CharClass.ofCode (c : Char) : CharClass :=
  match c with
  | 'e' | 'E' | 'p' | 'P' => .exponentLetter
  | '_' => .letter
  | '0' | '1' | '2' | '3' | '4' | '5' | '6' | '7' | '8' | '9' => .digit
  | '.' => .dot
  | '"' => .doubleQuote
  | '\'' => .singleQuote
  | '\\' => .backslash
  | '#' => .hash
  | '/' => .slash
  | '*' => .star
  | '+' => .plus
  | '-' => .minus
  | '=' => .equals
  | '!' => .bang
  | '%' => .percent
  | '^' => .caret
  | '&' => .ampersand
  | '|' => .pipe
  | ':' => .colon
  | '<' => .less
  | '>' => .greater
  | '(' | ')' | '[' | ']' | '\x7b' | '\x7d' | ';' | ',' | '?' | '~' => .punct
  | _ => if isAlphabetic c then .letter else .other

/-- The class of a character in a mode.  White space is white space in every mode. -/
def CharClass.classify (mode : Mode) (c : Char) : CharClass :=
  if isBlank c then .whitespace
  else match mode with
    | .normal => .ofCode c
    | .includeLiteral =>
        match c with
        | '<' => .angleOpen
        | '>' => .angleClose
        | _ => .ofCode c
    | .blockComment =>
        match c with
        | '*' => .star
        | '/' => .slash
        | '"' => .doubleQuote
        | '\\' => .backslash
        | _ => .commentChar
    | .inlineComment => .commentChar

end LineLexer
