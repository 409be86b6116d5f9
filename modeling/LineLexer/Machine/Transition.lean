import LineLexer.Machine.CharClass
/-!
The transition table: what a scanner does with a character of a given class, and the mode
that holds afterwards.

The states fall into three families, for code and for the two kinds of comment, and a class
that no mode of a family presents is answered by `Action.error`.  In code every state has an
answer to the characters that do not continue its token: the token ends before the character
(`acceptBack1`), or one character earlier where the last one was read on trust
(`acceptBack2`).  The table below therefore lists for each state only what it continues with.
-/

namespace LineLexer

/-- What the scanner does with the character it looks at. -/
inductive Action where
  /-- Add the character to the token. -/
  | store
  /-- Add the character to the token and end the token. -/
  | accept
  /-- End the token before the character, which is looked at again. -/
  | acceptBack1
  /-- Give the last character of the token back, end the token, and look at both again. -/
  | acceptBack2
  /-- End the opening mark of a block comment and enter the comment. -/
  | startBlockComment
  /-- End the mark of an inline comment and enter the comment. -/
  | startInlineComment
  /-- End an include directive before the character, which is looked at again. -/
  | startInclude
  /-- End the closing mark of a block comment and leave the comment. -/
  | stopBlockComment
  /-- Skip the character. -/
  | ignore
  /-- The character has no place here. -/
  | error
deriving DecidableEq, Inhabited

/-- Every action. -/
def Action.all : List Action :=
  [.store, .accept, .acceptBack1, .acceptBack2, .startBlockComment, .startInlineComment,
    .startInclude, .stopBlockComment, .ignore, .error]

/-- Whether an action adds the character to the token before anything else happens. -/
def Action.consumes : Action → Bool
  | .store | .accept | .startBlockComment | .startInlineComment | .stopBlockComment => true
  | _ => false

/-- Whether an action ends the token. -/
def Action.flushes : Action → Bool
  | .store | .ignore | .error => false
  | _ => true

/-- One entry of the table: the state that follows and what is done. -/
structure Move where
  next : State
  action : Action
deriving DecidableEq

/-- Add the character and go on in `next`. -/
def Move.store (next : State) : Move := ⟨next, .store⟩

/-- The character completes a token of code. -/
def Move.accept : Move := ⟨.start, .accept⟩

/-- The operator that a character completes or continues when the character does not stand
for an operator of its own: the second and third characters of longer operators. -/
def operatorMove : State → CharClass → Option Move
  | .slash, .slash => some ⟨.inlineStart, .startInlineComment⟩
  | .slash, .star => some ⟨.commentStart, .startBlockComment⟩
  | .plus, .plus | .minus, .minus | .ampersand, .ampersand | .pipe, .pipe => some .accept
  | .colon, .colon => some .accept
  | .colon, .equals => none
  | .minus, .greater => some (.store .arrow)
  | .arrow, .star => some .accept
  | .arrow, .equals => none
  | .less, .less => some (.store .shiftLeft)
  | .less, .equals => some (.store .lessEq)
  | .lessEq, .greater => some .accept
  | .lessEq, .equals => none
  | .greater, .greater => some (.store .shiftRight)
  | _, .equals => some .accept
  | _, _ => none

/-- How a number goes on. -/
def numberMove : CharClass → Option Move
  | .digit | .letter | .dot => some (.store .number)
  | .exponentLetter => some (.store .numberExp)
  | .singleQuote => some (.store .numberQuote)
  | _ => none

/-- How a token of code starts.  The closing angle bracket, a lone backslash and every
character without a meaning are tokens by themselves. -/
def firstMove : CharClass → Move
  | .whitespace | .endOfLine => ⟨.start, .ignore⟩
  | .letter | .exponentLetter => .store .ident
  | .digit => .store .number
  | .dot => .store .dot
  | .doubleQuote => .store .string
  | .singleQuote => .store .char
  | .hash => .store .hash
  | .slash => .store .slash
  | .star => .store .star
  | .plus => .store .plus
  | .minus => .store .minus
  | .equals => .store .equals
  | .bang => .store .bang
  | .percent => .store .percent
  | .caret => .store .caret
  | .ampersand => .store .ampersand
  | .pipe => .store .pipe
  | .colon => .store .colon
  | .less => .store .less
  | .greater => .store .greater
  | .angleOpen => .store .angleLiteral
  | .punct | .angleClose | .backslash | .other => .accept
  | .commentChar => ⟨.start, .error⟩

/-- What a state of code goes on with; `none` where its token ends. -/
def continueMove : State → CharClass → Option Move
  | .start, kind => some (firstMove kind)
  | .ident, .letter | .ident, .exponentLetter | .ident, .digit => some (.store .ident)
  | .ident, _ => none
  | .number, kind => numberMove kind
  | .numberExp, .plus | .numberExp, .minus => some (.store .numberSign)
  | .numberExp, kind => numberMove kind
  | .numberSign, .digit => some (.store .number)
  | .numberSign, _ => none
  | .numberQuote, .digit | .numberQuote, .letter => some (.store .number)
  | .numberQuote, .exponentLetter => some (.store .numberExp)
  | .numberQuote, _ => none
  | .dot, .digit => some (.store .number)
  | .dot, .dot => some (.store .dotDot)
  | .dot, .star => some .accept
  | .dot, _ => none
  | .dotDot, .dot => some .accept
  | .dotDot, _ => none
  | .string, .endOfLine | .stringEscape, .endOfLine => none
  | .string, .doubleQuote => some .accept
  | .string, .backslash => some (.store .stringEscape)
  | .string, _ | .stringEscape, _ => some (.store .string)
  | .char, .endOfLine | .charEscape, .endOfLine => none
  | .char, .singleQuote => some .accept
  | .char, .backslash => some (.store .charEscape)
  | .char, _ | .charEscape, _ => some (.store .char)
  | .angleLiteral, .endOfLine => none
  | .angleLiteral, .angleClose => some .accept
  | .angleLiteral, _ => some (.store .angleLiteral)
  | .hash, .hash => some .accept
  | .hash, .letter | .hash, .exponentLetter => some (.store .directive)
  | .hash, _ => none
  | .directive, .letter | .directive, .exponentLetter | .directive, .digit =>
      some (.store .directive)
  | .directive, _ => none
  | state, kind => operatorMove state kind

/-- Whether the last character of a token in this state was read on trust, so that it is
given back when what it needs does not follow. -/
def State.onTrust : State → Bool
  | .numberSign | .numberQuote | .dotDot => true
  | _ => false

/-- The table for the states of code. -/
def codeMove (state : State) (kind : CharClass) : Move :=
  if kind = .commentChar then ⟨.start, .error⟩
  else (continueMove state kind).getD
    ⟨.start, if state.onTrust then .acceptBack2 else .acceptBack1⟩

/-- The table for the states of a block comment.  A comment is cut into words at white
space, at stars and around quoted spans; `*/` ends it outside quoted spans only. -/
def blockMove : State → CharClass → Move
  | .commentStart, .whitespace | .commentStart, .endOfLine => ⟨.commentStart, .ignore⟩
  | .commentStart, .star => .store .commentStar
  | .commentStart, .doubleQuote => .store .commentString
  | .commentStart, .slash | .commentStart, .backslash | .commentStart, .commentChar
  | .commentWord, .slash | .commentWord, .backslash | .commentWord, .commentChar
  | .commentStar, .backslash | .commentStar, .commentChar => .store .commentWord
  | .commentStar, .slash => ⟨.start, .stopBlockComment⟩
  | .commentWord, .star | .commentWord, .whitespace | .commentWord, .doubleQuote
  | .commentWord, .endOfLine
  | .commentStar, .star | .commentStar, .whitespace | .commentStar, .doubleQuote
  | .commentStar, .endOfLine
  | .commentString, .endOfLine | .commentStringEscape, .endOfLine =>
      ⟨.commentStart, .acceptBack1⟩
  | .commentString, .doubleQuote => ⟨.commentStart, .accept⟩
  | .commentString, .backslash => .store .commentStringEscape
  | .commentString, .whitespace | .commentString, .star | .commentString, .slash
  | .commentString, .commentChar
  | .commentStringEscape, .whitespace | .commentStringEscape, .star
  | .commentStringEscape, .slash | .commentStringEscape, .doubleQuote
  | .commentStringEscape, .backslash | .commentStringEscape, .commentChar =>
      .store .commentString
  | _, _ => ⟨.commentStart, .error⟩

/-- The table for the states of an inline comment, whose body is one token. -/
def inlineMove : State → CharClass → Move
  | .inlineStart, .whitespace | .inlineStart, .endOfLine => ⟨.inlineStart, .ignore⟩
  | .inlineStart, .commentChar => .store .inlineBody
  | .inlineBody, .whitespace | .inlineBody, .commentChar => .store .inlineBody
  | .inlineBody, .endOfLine => ⟨.inlineStart, .acceptBack1⟩
  | _, _ => ⟨.inlineStart, .error⟩

/-- The transition table, for every state and class. -/
def transition (state : State) (kind : CharClass) : Move :=
  match state with
  | .commentStart | .commentWord | .commentStar | .commentString
  | .commentStringEscape => blockMove state kind
  | .inlineStart | .inlineBody => inlineMove state kind
  | _ => codeMove state kind

/-- The directive that switches to include mode. -/
def includeDirective : List Char := ['#', 'i', 'n', 'c', 'l', 'u', 'd', 'e']

/-- The transition table with its one rule that looks at the text of the token: a directive
that ends and spells `#include` starts an include.  The characters of the token are given
with the last one first. -/
def step (state : State) (kind : CharClass) (pending : List Char) : Move :=
  let move := transition state kind
  if state = .directive ∧ move.action = .acceptBack1 ∧
      pending = includeDirective.reverse then
    ⟨.start, .startInclude⟩
  else move

/-- The mode after an action taken in `state`.  A completed literal answers an include. -/
def nextMode (mode : Mode) (state : State) (action : Action) : Mode :=
  match action with
  | .startBlockComment => .blockComment
  | .startInlineComment => .inlineComment
  | .startInclude => .includeLiteral
  | .stopBlockComment => if mode = .blockComment then .normal else mode
  | .accept =>
      if mode = .includeLiteral ∧ (state = .angleLiteral ∨ state = .string) then .normal
      else mode
  | _ => mode

end LineLexer
