/-!
The switches of the library and their defaults.
-/

namespace LineLexer

/-- What a lexer delivers besides the tokens of a line. -/
structure Config where
  /-- Whether a line terminator follows the tokens of every line. -/
  emitLineTerminator : Bool := false
  /-- Whether a literal that the end of its line leaves open is warned about. -/
  reportUnterminated : Bool := true
deriving DecidableEq

/-- How a whole source is tokenized. -/
structure Options where
  tokenizer : Config := {}
  /-- Whether comments are removed from the tokens. -/
  stripComments : Bool := false
deriving DecidableEq

/-- The default options with removal of comments. -/
def Options.strippingComments : Options :=
  { stripComments := true }

end LineLexer
