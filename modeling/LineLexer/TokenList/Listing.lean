import LineLexer.TokenList.Comments
/-!
The numbered listing of a token list: one row per token and a closing row with their number.
A line terminator is shown as a backslash and an `n`, so that it does not break its row.
-/

namespace LineLexer

/-- How the listing shows the text of a token. -/
def shownText (text : String) : String :=
  if text == lineTerminator then "\\n" else text

/-- The row of the token with the given number. -/
def listingRow (number : Nat) (text : String) : String :=
  "Token " ++ toString number ++ ": " ++ shownText text ++ "\n"

/-- The rows of tokens that are numbered from `number` on. -/
def listingRows : Nat → List String → List String
  | _, [] => []
  | number, text :: rest => listingRow number text :: listingRows (number + 1) rest

namespace TokenList

/-- The listing of a token list. -/
def listing (list : TokenList) : String :=
  String.join (listingRows 1 list.texts) ++
    "Number of tokens processed: " ++ toString list.texts.length ++ "\n"

end TokenList

end LineLexer
