import LineLexer.TokenList.Basic
/-!
Removal of comments from a token list, by the texts of its tokens alone.

An inline comment is its mark and the tokens up to the line terminator, which stays.  A
block comment is everything from its opening to its closing mark, or to the end of the list.
Inside a comment the marks of other comments are text.  One pass from front to back decides
which tokens go; they are then erased in their order, which fixes the order in which their
slots become free.
-/

namespace LineLexer

/-- The text of a line terminator. -/
def lineTerminator : String := "\n"

/-- The two kinds of comments. -/
inductive CommentKind where
  | inline
  | block
deriving DecidableEq

namespace CommentKind

/-- The text that opens a comment. -/
def opening : CommentKind → String
  | .inline => "//"
  | .block => "/*"

/-- The text that ends a comment. -/
def closing : CommentKind → String
  | .inline => lineTerminator
  | .block => "*/"

/-- The kind of comment that a text opens, among the kinds looked for. -/
def opened? (kinds : List CommentKind) (text : String) : Option CommentKind :=
  kinds.find? fun kind => kind.opening == text

/-- Whether the token that ends a comment belongs to it. -/
def ownsClosing : CommentKind → Bool
  | .inline => false
  | .block => true

end CommentKind

/-- How many comments were removed. -/
structure CommentCounts where
  inline : Nat := 0
  block : Nat := 0
deriving DecidableEq

namespace CommentCounts

def total (counts : CommentCounts) : Nat :=
  counts.inline + counts.block

/-- One comment more. -/
def count (counts : CommentCounts) : CommentKind → CommentCounts
  | .inline => { counts with inline := counts.inline + 1 }
  | .block => { counts with block := counts.block + 1 }

end CommentCounts

/-- Which tokens go, and the comments they make up. -/
structure CommentSweep where
  handles : List Handle := []
  counts : CommentCounts := {}

/-- The tokens that belong to comments of the given kinds.  The second argument is the
comment the first token stands in, if any. -/
def CommentSweep.of (kinds : List CommentKind) :
    Option CommentKind → List (Handle × Token) → CommentSweep
  | _, [] => {}
  | none, (handle, token) :: rest =>
      match CommentKind.opened? kinds token.text with
      | some kind =>
          let sweep := CommentSweep.of kinds (some kind) rest
          ⟨handle :: sweep.handles, sweep.counts.count kind⟩
      | none => CommentSweep.of kinds none rest
  | some kind, (handle, token) :: rest =>
      if token.text == kind.closing then
        let sweep := CommentSweep.of kinds none rest
        if kind.ownsClosing then { sweep with handles := handle :: sweep.handles }
        else sweep
      else
        let sweep := CommentSweep.of kinds (some kind) rest
        { sweep with handles := handle :: sweep.handles }

namespace TokenList

/-- Erases tokens, in the given order. -/
def eraseAll (list : TokenList) (handles : List Handle) : TokenList :=
  handles.foldl (fun rest handle => (rest.erase handle).2) list

/-- Removes the comments of the given kinds. -/
def removeComments (list : TokenList) (kinds : List CommentKind) :
    CommentCounts × TokenList :=
  let sweep := CommentSweep.of kinds none list.entries
  (sweep.counts, list.eraseAll sweep.handles)

/-- Removes inline comments and returns their number.  Marks of block comments are text. -/
def removeInlineComments (list : TokenList) : Nat × TokenList :=
  let (counts, rest) := list.removeComments [.inline]
  (counts.inline, rest)

/-- Removes block comments and returns their number.  Marks of inline comments are text. -/
def removeBlockComments (list : TokenList) : Nat × TokenList :=
  let (counts, rest) := list.removeComments [.block]
  (counts.block, rest)

/-- Removes comments of both kinds: whichever mark comes first opens a comment. -/
def stripComments (list : TokenList) : CommentCounts × TokenList :=
  list.removeComments [.inline, .block]

end TokenList

end LineLexer
