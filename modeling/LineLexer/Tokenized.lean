import LineLexer.Lexer
import LineLexer.Source
/-!
A whole source as one token list: the tokens of its logical lines, each line followed by a
line terminator, with everything there is to report about it.
-/

namespace LineLexer

/-- The tokens of a source, the reports about it and the comments removed from it. -/
structure Tokenized where
  tokens : TokenList := {}
  diagnostics : List Diagnostic := []
  comments : CommentCounts := {}

namespace Tokenized

/-- Reads one logical line and adds its tokens to those of the lines before. -/
def addLine (before : Lexer × TokenList) (line : LogicalLine) : Lexer × TokenList :=
  let (lexer, tokens) := before
  let (texts, drained) := (lexer.readNumbered line.number line.text).drain
  let terminators := if lexer.config.emitLineTerminator then [] else [lineTerminator]
  (drained, tokens.extend (texts ++ terminators))

/-- Reads logical lines from the first on. -/
def readLines (config : Config) (lines : List LogicalLine) : Lexer × TokenList :=
  lines.foldl addLine (.ofConfig config, .empty 0)

/-- The error at the end of the input, reported at the line that opened what is left open. -/
def endDiagnostic (lastLine : Nat) (error : LexError) : Diagnostic :=
  match error with
  | .unterminated _ line => .ofError error ⟨line, 1⟩
  | _ => .ofError error ⟨lastLine, 1⟩

/-- Tokenizes a source. -/
def ofSource (options : Options) (source : Source) : Tokenized :=
  let (lexer, tokens) := readLines options.tokenizer source.logicalLines
  let (warnings, idle) := lexer.takeDiagnostics
  let errors := match idle.finish.1 with
    | .ok _ => []
    | .error error => [endDiagnostic idle.line error]
  let (comments, kept) :=
    if options.stripComments then tokens.stripComments else ({}, tokens)
  { tokens := kept, diagnostics := warnings ++ errors, comments }

/-- Tokenizes a text that has no name of its own. -/
def ofText (options : Options) (text : String) : Tokenized :=
  ofSource options ⟨"<input>", text⟩

/-- Whether any diagnostic is an error. -/
def hasErrors (tokenized : Tokenized) : Bool :=
  tokenized.diagnostics.any (·.isError)

end Tokenized

end LineLexer
