/-!
What the library reports about its input and its callers: numbered codes, the constructs
that can be left open, the errors of single operations, and diagnostics, which place a
report in the source.  The wording of every message is here.
-/

namespace LineLexer

/-- A position in a source.  Lines and columns are counted from one, columns in characters. -/
structure Position where
  line : Nat
  column : Nat
deriving DecidableEq

/-- The bound of the numbers in a position: they are numbers of 64 bits. -/
def Position.bound : Nat :=
  Nat.pow 2 64

/-- A position is written with its line first. -/
def Position.text (position : Position) : String :=
  toString position.line ++ ":" ++ toString position.column

/-- How grave a diagnostic is.  A literal left open at the end of a line is a warning,
because its token is kept and reading goes on. -/
inductive Severity where
  | error
  | warning
deriving DecidableEq

/-- The number of a kind of report.  Codes from 100 are faults of the caller, from 200
constructs left open, from 300 faults of the transition table. -/
structure Code where
  number : UInt16
deriving DecidableEq

namespace Code

def invalidArgument : Code := ⟨100⟩

def exhaustedCursor : Code := ⟨101⟩

def unterminatedString : Code := ⟨200⟩

def unterminatedChar : Code := ⟨201⟩

def unterminatedInclude : Code := ⟨202⟩

def unterminatedBlockComment : Code := ⟨203⟩

def unexpectedTransition : Code := ⟨300⟩

/-- A code is written as its number after the letter `E`. -/
def text (code : Code) : String :=
  "E" ++ toString code.number.toNat

end Code

/-- The constructs that the end of a line or of the input can leave open. -/
inductive Construct where
  | stringLiteral
  | charLiteral
  | includeLiteral
  | blockComment
deriving DecidableEq

/-- Every construct. -/
def Construct.all : List Construct :=
  [.stringLiteral, .charLiteral, .includeLiteral, .blockComment]

/-- The code under which an open construct is reported. -/
def Construct.code : Construct → Code
  | .stringLiteral => .unterminatedString
  | .charLiteral => .unterminatedChar
  | .includeLiteral => .unterminatedInclude
  | .blockComment => .unterminatedBlockComment

/-- The words for a construct in a message. -/
def Construct.text : Construct → String
  | .stringLiteral => "string literal"
  | .charLiteral => "character literal"
  | .includeLiteral => "include literal"
  | .blockComment => "block comment"

/-- The ways in which an operation of the library fails. -/
inductive LexError where
  /-- The caller passed something that does not fit, for the given reason. -/
  | invalidArgument (reason : String)
  /-- A token was asked for after all had been read. -/
  | exhaustedCursor
  /-- The input ended inside a construct that was opened on the given line. -/
  | unterminated (construct : Construct) (line : Nat)
deriving DecidableEq

/-- The code of an error. -/
def LexError.code : LexError → Code
  | .invalidArgument _ => .invalidArgument
  | .exhaustedCursor => .exhaustedCursor
  | .unterminated construct _ => construct.code

/-- The message of an error. -/
def LexError.message : LexError → String
  | .invalidArgument reason => "invalid argument: " ++ reason
  | .exhaustedCursor => "cursor exhausted: no more tokens to read"
  | .unterminated construct line =>
      "unterminated " ++ construct.text ++ " opened on line " ++ toString line

/-- A report about a place in the source. -/
structure Diagnostic where
  code : Code
  severity : Severity
  message : String
  position : Position
deriving DecidableEq

namespace Diagnostic

/-- A report that leaves the result usable. -/
def warning (code : Code) (message : String) (position : Position) : Diagnostic :=
  ⟨code, .warning, message, position⟩

/-- An error of an operation, reported at a place. -/
def ofError (error : LexError) (position : Position) : Diagnostic :=
  ⟨error.code, .error, error.message, position⟩

/-- The warning about a literal that the end of its line leaves open, placed at the opening
delimiter. -/
def openAtLineEnd (construct : Construct) (position : Position) : Diagnostic :=
  warning construct.code ("unterminated " ++ construct.text ++ " at end of line") position

/-- Whether a diagnostic is an error. -/
def isError (diagnostic : Diagnostic) : Bool :=
  diagnostic.severity == .error

/-- A diagnostic on one line: place, code and message. -/
def text (diagnostic : Diagnostic) : String :=
  diagnostic.position.text ++ ": " ++ diagnostic.code.text ++ " " ++ diagnostic.message

end Diagnostic

end LineLexer
