import LineLexer.Config
import LineLexer.Scan
import LineLexer.TokenList.Comments
/-!
A lexer reads lines one after the other.

It scans a line as soon as it gets it and hands the tokens out one by one.  Between lines it
keeps the mode, so that a block comment opened on one line is still open on the next, and
the number of the line that opened it.  The tokens of a line that have not been asked for
are lost when the next line comes.
-/

namespace LineLexer

/-- A scan at rest between lines, and the tokens of the line read last. -/
structure Lexer where
  config : Config := {}
  scan : Scan := {}
  /-- The number of the line read last. -/
  line : Nat := 0
  /-- The number of the line that opened the last block comment. -/
  blockLine : Nat := 0
  tokens : TokenList := {}
  diagnostics : List Diagnostic := []

namespace Lexer

/-- A lexer that has read nothing. -/
def ofConfig (config : Config) : Lexer :=
  { config }

def mode (lexer : Lexer) : Mode :=
  lexer.scan.mode

def state (lexer : Lexer) : State :=
  lexer.scan.state

/-- The texts that a run over a line delivers under a configuration. -/
def lineTexts (config : Config) (run : Run) : List String :=
  run.tokens.map String.ofList ++ if config.emitLineTerminator then [lineTerminator] else []

/-- Reads a line and reports on it under the given number. -/
def readNumbered (lexer : Lexer) (number : Nat) (text : List Char) : Lexer :=
  let run := scanLine lexer.mode text
  { lexer with
    scan := run.last.park
    line := number
    blockLine := if run.opensBlock then number else lexer.blockLine
    tokens := lexer.tokens.clear.extend (lineTexts lexer.config run)
    diagnostics :=
      lexer.diagnostics ++ run.warnings lexer.config.reportUnterminated number }

/-- Reads the line after the one read last.  After the last number below `Position.bound` there
is no next one, and numbering starts again with `readNumbered`. -/
def read (lexer : Lexer) (text : List Char) : Lexer :=
  lexer.readNumbered (lexer.line + 1) text

/-- The next token of the line. -/
def pull (lexer : Lexer) : Except LexError String × Lexer :=
  let (handle, tokens) := lexer.tokens.advance
  let text := handle.bind tokens.text?
  (match text with
    | some text => .ok text
    | none => .error .exhaustedCursor,
    { lexer with tokens })

/-- Whether every token of the line has been pulled. -/
def isComplete (lexer : Lexer) : Bool :=
  lexer.tokens.isExhausted

/-- Pulls at most the given number of tokens, until a pull fails. -/
def pullMany : Nat → Lexer → List String × Lexer
  | 0, lexer => ([], lexer)
  | count + 1, lexer =>
      match lexer.pull with
      | (.ok text, next) =>
          let (texts, last) := pullMany count next
          (text :: texts, last)
      | (.error _, next) => ([], next)

/-- Pulls the tokens of the line that are left.  A line has no more tokens than its list. -/
def drain (lexer : Lexer) : List String × Lexer :=
  pullMany lexer.tokens.size lexer

/-- Reads a line and pulls all its tokens. -/
def tokenizeLine (lexer : Lexer) (text : List Char) : List String × Lexer :=
  (lexer.read text).drain

/-- Ends the input.  A block comment that is still open is an error; either way the lexer
is ready for code again. -/
def finish (lexer : Lexer) : Except LexError Unit × Lexer :=
  (if lexer.mode = .blockComment then .error (.unterminated .blockComment lexer.blockLine)
    else .ok (),
    { lexer with scan := { lexer.scan with mode := .normal, state := .start } })

/-- Takes the diagnostics recorded so far. -/
def takeDiagnostics (lexer : Lexer) : List Diagnostic × Lexer :=
  (lexer.diagnostics, { lexer with diagnostics := [] })

end Lexer

end LineLexer
