/-!
The states a scanner can be in between two characters, and the modes that decide how
characters are read.  A mode outlasts single tokens; a state belongs to the token that is
being read.  Each mode names the state in which nothing has been read of the next token.
-/

namespace LineLexer

/-- How far the scanner has got with the token it is reading. -/
inductive State where
  | start
  | ident
  | number
  /-- A number whose last character may start an exponent. -/
  | numberExp
  /-- A number followed by an exponent letter and a sign. -/
  | numberSign
  /-- A number followed by a quote that may separate digits. -/
  | numberQuote
  | dot
  | dotDot
  | string
  | stringEscape
  | char
  | charEscape
  | hash
  | directive
  | slash
  | star
  | plus
  | minus
  | arrow
  | equals
  | bang
  | percent
  | caret
  | ampersand
  | pipe
  | colon
  | less
  | shiftLeft
  | lessEq
  | greater
  | shiftRight
  | angleLiteral
  | commentStart
  | commentWord
  | commentStar
  | commentString
  | commentStringEscape
  | inlineStart
  | inlineBody
deriving DecidableEq, Inhabited

/-- Every state, in the order of their indices. -/
def State.all : List State :=
  [.start, .ident, .number, .numberExp, .numberSign, .numberQuote, .dot, .dotDot, .string,
    .stringEscape, .char, .charEscape, .hash, .directive, .slash, .star, .plus, .minus,
    .arrow, .equals, .bang, .percent, .caret, .ampersand, .pipe, .colon, .less, .shiftLeft,
    .lessEq, .greater, .shiftRight, .angleLiteral, .commentStart, .commentWord,
    .commentStar, .commentString, .commentStringEscape, .inlineStart, .inlineBody]

theorem State.mem_all (state : State) : state ∈ State.all := by
  cases state <;> decide

/-- The position of a state in `State.all`. -/
def State.index (state : State) : Nat :=
  State.all.idxOf state

/-- The name under which diagnostics mention a state. -/
def State.name : State → String
  | .start => "Start"
  | .ident => "Ident"
  | .number => "Number"
  | .numberExp => "NumberExp"
  | .numberSign => "NumberSign"
  | .numberQuote => "NumberQuote"
  | .dot => "Dot"
  | .dotDot => "DotDot"
  | .string => "Str"
  | .stringEscape => "StrEscape"
  | .char => "Char"
  | .charEscape => "CharEscape"
  | .hash => "Hash"
  | .directive => "Directive"
  | .slash => "Slash"
  | .star => "Star"
  | .plus => "Plus"
  | .minus => "Minus"
  | .arrow => "Arrow"
  | .equals => "Equals"
  | .bang => "Bang"
  | .percent => "Percent"
  | .caret => "Caret"
  | .ampersand => "Ampersand"
  | .pipe => "Pipe"
  | .colon => "Colon"
  | .less => "Less"
  | .shiftLeft => "ShiftLeft"
  | .lessEq => "LessEq"
  | .greater => "Greater"
  | .shiftRight => "ShiftRight"
  | .angleLiteral => "AngleLiteral"
  | .commentStart => "CommentStart"
  | .commentWord => "CommentWord"
  | .commentStar => "CommentStar"
  | .commentString => "CommentString"
  | .commentStringEscape => "CommentStringEscape"
  | .inlineStart => "InlineStart"
  | .inlineBody => "InlineBody"

/-- The states in which nothing has been read of a token yet. -/
def State.isStart : State → Bool
  | .start | .commentStart | .inlineStart => true
  | _ => false

/-- The ways of reading characters. -/
inductive Mode where
  | normal
  /-- Between the opening and the closing mark of a block comment. -/
  | blockComment
  /-- From the mark of an inline comment to the end of its line. -/
  | inlineComment
  /-- After an include directive, where angle brackets delimit a literal. -/
  | includeLiteral
deriving DecidableEq, Inhabited

/-- Every mode. -/
def Mode.all : List Mode :=
  [.normal, .blockComment, .inlineComment, .includeLiteral]

/-- The state in which a token of this mode starts. -/
def Mode.startState : Mode → State
  | .normal | .includeLiteral => .start
  | .blockComment => .commentStart
  | .inlineComment => .inlineStart

/-- The mode in which the next line starts: a block comment outlasts its line, an inline
comment and an include directive do not. -/
def Mode.atLineEnd : Mode → Mode
  | .inlineComment | .includeLiteral => .normal
  | mode => mode

theorem Mode.startState_isStart (mode : Mode) : mode.startState.isStart = true := by
  cases mode <;> rfl

end LineLexer
