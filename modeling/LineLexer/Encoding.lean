import LineLexer.Json.Printer
import LineLexer.Tokenized
/-!
The JSON forms of what the library delivers, and how they are handed to a printer.  A diagnostic
carries its position in members of its own beside the others, and a token list is the array of
its texts.
-/

namespace LineLexer

/-- The name of a severity in JSON. -/
def Severity.key : Severity → String
  | .error => "error"
  | .warning => "warning"

/-- The name of a construct in JSON. -/
def Construct.key : Construct → String
  | .stringLiteral => "string_literal"
  | .charLiteral => "char_literal"
  | .includeLiteral => "include_literal"
  | .blockComment => "block_comment"

def Severity.toJson (severity : Severity) : Json :=
  .string severity.key

def Construct.toJson (construct : Construct) : Json :=
  .string construct.key

def Code.toJson (code : Code) : Json :=
  .ofNat code.number.toNat

def Position.toJson (position : Position) : Json :=
  .object [("line", .ofNat position.line), ("column", .ofNat position.column)]

def Diagnostic.toJson (diagnostic : Diagnostic) : Json :=
  .object
    [("code", diagnostic.code.toJson),
      ("severity", diagnostic.severity.toJson),
      ("message", .string diagnostic.message),
      ("line", .ofNat diagnostic.position.line),
      ("column", .ofNat diagnostic.position.column)]

def Config.toJson (config : Config) : Json :=
  .object
    [("emit_line_terminator", .bool config.emitLineTerminator),
      ("report_unterminated", .bool config.reportUnterminated)]

def Options.toJson (options : Options) : Json :=
  .object
    [("tokenizer", options.tokenizer.toJson),
      ("strip_comments", .bool options.stripComments)]

def CommentCounts.toJson (counts : CommentCounts) : Json :=
  .object [("inline", .ofNat counts.inline), ("block", .ofNat counts.block)]

def TokenList.toJson (list : TokenList) : Json :=
  .array (list.texts.map .string)

def Tokenized.toJson (tokenized : Tokenized) : Json :=
  .object
    [("tokens", tokenized.tokens.toJson),
      ("diagnostics", .array (tokenized.diagnostics.map (·.toJson))),
      ("comments", tokenized.comments.toJson)]

def Code.print (printer : Json.Printer) (code : Code) : List Char :=
  printer.number code.number.toNat

def Severity.print (printer : Json.Printer) (severity : Severity) : List Char :=
  printer.string severity.key

def Diagnostic.print (printer : Json.Printer) (depth : Nat) (diagnostic : Diagnostic) :
    List Char :=
  printer.object depth
    [("code", diagnostic.code.print printer),
      ("severity", diagnostic.severity.print printer),
      ("message", printer.string diagnostic.message),
      ("line", printer.number diagnostic.position.line),
      ("column", printer.number diagnostic.position.column)]

def CommentCounts.print (printer : Json.Printer) (depth : Nat) (counts : CommentCounts) :
    List Char :=
  printer.object depth
    [("inline", printer.number counts.inline), ("block", printer.number counts.block)]

/-- The size that the list keeps is announced before the walk along its tokens. -/
def TokenList.print (printer : Json.Printer) (depth : Nat) (list : TokenList) : List Char :=
  printer.array depth list.size (list.texts.map printer.string)

def Tokenized.print (printer : Json.Printer) (depth : Nat) (tokenized : Tokenized) : List Char :=
  printer.object depth
    [("tokens", tokenized.tokens.print printer (depth + 1)),
      ("diagnostics", printer.array (depth + 1) tokenized.diagnostics.length
        (tokenized.diagnostics.map (·.print printer (depth + 2)))),
      ("comments", tokenized.comments.print printer (depth + 1))]

/-- The document of an output. -/
def Tokenized.document (printer : Json.Printer) (tokenized : Tokenized) : String :=
  String.ofList (tokenized.print printer 0)

end LineLexer
