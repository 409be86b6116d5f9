import LineLexer.TokenList.Basic
/-!
Several token lists side by side.  A list that is put on the shelf gets the tag after that of
the list created before it, so that its handles mean nothing to lists created apart from it
until the tags start again.  A copy keeps the tag of its original, and with it the handles
issued so far.
-/

namespace LineLexer

/-- Token lists by position, and the tag of the next new one.  Tags are numbers of 32 bits, and
after the last one they start again at zero. -/
structure Shelf where
  lists : Array TokenList := #[]
  nextTag : UInt32 := 0

namespace Shelf

/-- The list at a position. -/
def list? (shelf : Shelf) (position : Nat) : Option TokenList :=
  shelf.lists[position]?

/-- Puts a new list of tokens with the given texts on the shelf and returns its position. -/
def create (shelf : Shelf) (texts : List String) : Nat × Shelf :=
  (shelf.lists.size,
    { lists := shelf.lists.push (.ofTexts shelf.nextTag.toNat texts)
      nextTag := shelf.nextTag + 1 })

/-- Puts a copy of a list on the shelf and returns its position. -/
def copy (shelf : Shelf) (list : TokenList) : Nat × Shelf :=
  (shelf.lists.size, { shelf with lists := shelf.lists.push list })

/-- Replaces the list at a position. -/
def replace (shelf : Shelf) (position : Nat) (list : TokenList) : Shelf :=
  { shelf with lists := shelf.lists.setIfInBounds position list }

end Shelf

end LineLexer
