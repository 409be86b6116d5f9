import LineLexer.Diagnostic
/-!
Lists of tokens with handles that outlive changes.

The tokens of a list sit in slots, and a token knows its neighbours by their handles.  A
handle names a slot together with the number of times the slot had been vacated when the
handle was issued, and the tag of its list.  So the handle of an erased token is told apart
from the handle of the token that took over its slot.  Vacated slots are reused, the most
recently vacated one first.

Besides the order of its tokens a list keeps a cursor, the next token that
`TokenList.advance` delivers.
-/

namespace LineLexer

/-- A unit of text.  Any text is a token, the empty one included. -/
structure Token where
  text : String := ""
deriving DecidableEq, Inhabited

/-- The name of a token in a list. -/
structure Handle where
  /-- The tag of the list that issued the handle. -/
  list : Nat
  index : Nat
  generation : Nat
deriving DecidableEq

/-- The bound of the numbers in a handle: they are numbers of 32 bits. -/
def Handle.bound : Nat :=
  Nat.pow 2 32

/-- A handle is written as its list, its slot and its generation. -/
def Handle.text (handle : Handle) : String :=
  toString handle.list ++ ":" ++ toString handle.index ++ "v" ++ toString handle.generation

/-- The error of an operation that was given a handle of no token of the list. -/
def Handle.notMember (handle : Handle) : LexError :=
  .invalidArgument ("token " ++ handle.text ++ " is not a member of this list")

/-- A token with its neighbours. -/
structure Node where
  token : Token
  next : Option Handle := none
  prev : Option Handle := none
deriving DecidableEq

/-- A place for a token. -/
structure Slot where
  /-- How many times the slot has been vacated. -/
  generation : Nat := 0
  node : Option Node := none
deriving DecidableEq, Inhabited

/-- The slot without its token. -/
def Slot.vacate (slot : Slot) : Slot :=
  ⟨slot.generation + 1, none⟩

/-- A sequence of tokens with a cursor. -/
structure TokenList where
  tag : Nat := 0
  slots : Array Slot := #[]
  /-- The vacated slots, the most recently vacated one first. -/
  free : List Nat := []
  head : Option Handle := none
  tail : Option Handle := none
  /-- The next token to be delivered. -/
  cursor : Option Handle := none
  size : Nat := 0
deriving DecidableEq

namespace TokenList

/-- The list without tokens that issues handles under `tag`. -/
def empty (tag : Nat) : TokenList :=
  { tag }

def isEmpty (list : TokenList) : Bool :=
  list.size == 0

/-- A list in whose handles no number reaches the bound: it has fewer slots, and none of them has
been vacated as often.  Only of such lists the indices and generations here are the numbers of
32 bits that they stand for. -/
structure InBounds (list : TokenList) : Prop where
  size_lt : list.slots.size < Handle.bound
  generation_lt : ∀ slot ∈ list.slots, slot.generation < Handle.bound

instance (list : TokenList) : Decidable list.InBounds :=
  decidable_of_iff
    (list.slots.size < Handle.bound ∧ ∀ slot ∈ list.slots.toList, slot.generation < Handle.bound)
    ⟨fun ⟨hsize, hslots⟩ => ⟨hsize, fun slot hslot => hslots slot hslot.val⟩,
      fun ⟨hsize, hslots⟩ => ⟨hsize, fun slot hslot => hslots slot ⟨hslot⟩⟩⟩

/-- The node a handle names, if it names a token of this list that has not been erased. -/
def node? (list : TokenList) (handle : Handle) : Option Node :=
  if handle.list = list.tag then
    match list.slots[handle.index]? with
    | some slot => if slot.generation = handle.generation then slot.node else none
    | none => none
  else none

def contains (list : TokenList) (handle : Handle) : Bool :=
  (list.node? handle).isSome

def get? (list : TokenList) (handle : Handle) : Option Token :=
  (list.node? handle).map (·.token)

def text? (list : TokenList) (handle : Handle) : Option String :=
  (list.get? handle).map (·.text)

/-- The token after the one named; `none` also at the end of the list. -/
def next? (list : TokenList) (handle : Handle) : Option Handle :=
  (list.node? handle).bind (·.next)

/-- The token before the one named; `none` also at the front of the list. -/
def prev? (list : TokenList) (handle : Handle) : Option Handle :=
  (list.node? handle).bind (·.prev)

/-- Changes the node a handle names.  A handle that names no token changes nothing. -/
def modifyNode (list : TokenList) (handle : Handle) (change : Node → Node) : TokenList :=
  if list.contains handle then
    { list with
      slots := list.slots.modify handle.index fun slot =>
        { slot with node := slot.node.map change } }
  else list

/-- Changes the text of the token a handle names. -/
def setText (list : TokenList) (handle : Handle) (text : String) : TokenList :=
  list.modifyNode handle fun node => { node with token := ⟨text⟩ }

/-- Puts a node into the most recently vacated slot, or into a new one if none is free. -/
def allocate (list : TokenList) (node : Node) : Handle × TokenList :=
  match list.free with
  | index :: free =>
      let slot := list.slots.getD index {}
      (⟨list.tag, index, slot.generation⟩,
        { list with
          slots := list.slots.setIfInBounds index { slot with node := some node }
          free })
  | [] =>
      (⟨list.tag, list.slots.size, 0⟩,
        { list with slots := list.slots.push { node := some node } })

/-- Takes the node a handle names out of its slot and vacates the slot. -/
def release (list : TokenList) (handle : Handle) : Option (Node × TokenList) :=
  (list.node? handle).map fun node =>
    (node,
      { list with
        slots := list.slots.modify handle.index Slot.vacate
        free := handle.index :: list.free })

/-- Adds a token at the end.  An exhausted cursor moves to it. -/
def push (list : TokenList) (token : Token) : Handle × TokenList :=
  let (handle, filled) := list.allocate { token, prev := list.tail }
  let linked := match list.tail with
    | some last => filled.modifyNode last fun node => { node with next := some handle }
    | none => { filled with head := some handle }
  (handle,
    { linked with
      tail := some handle
      cursor := linked.cursor.or (some handle)
      size := linked.size + 1 })

/-- Adds a token with the given text at the end. -/
def append (list : TokenList) (text : String) : Handle × TokenList :=
  list.push ⟨text⟩

/-- Adds tokens with the given texts at the end, in their order. -/
def extend (list : TokenList) (texts : List String) : TokenList :=
  texts.foldl (fun grown text => (grown.append text).2) list

/-- The list of tokens with the given texts. -/
def ofTexts (tag : Nat) (texts : List String) : TokenList :=
  (empty tag).extend texts

/-- Joins the neighbours of a node that has been taken out.  A cursor on it moves to the
token after it. -/
def unlink (list : TokenList) (handle : Handle) (node : Node) : TokenList :=
  let before := match node.prev with
    | some prev => list.modifyNode prev fun other => { other with next := node.next }
    | none => { list with head := node.next }
  let after := match node.next with
    | some next => before.modifyNode next fun other => { other with prev := node.prev }
    | none => { before with tail := node.prev }
  { after with
    cursor := if after.cursor = some handle then node.next else after.cursor
    size := after.size - 1 }

/-- Erases the token a handle names and returns it.  A handle of no token of the list is an
error and leaves the list as it is. -/
def erase (list : TokenList) (handle : Handle) : Except LexError Token × TokenList :=
  match list.release handle with
  | some (node, rest) => (.ok node.token, rest.unlink handle node)
  | none => (.error handle.notMember, list)

/-- The indices of the slots that hold a token, ascending. -/
def liveSlots (list : TokenList) : List Nat :=
  (List.range list.slots.size).filter fun index =>
    (list.slots.getD index {}).node.isSome

/-- Erases every token, the slots in ascending order.  The slots are kept for reuse. -/
def clear (list : TokenList) : TokenList :=
  { tag := list.tag
    slots := list.slots.map fun slot => if slot.node.isSome then slot.vacate else slot
    free := list.liveSlots.reverse ++ list.free }

/-- Delivers the token at the cursor and moves the cursor on; `none` if all are read. -/
def advance (list : TokenList) : Option Handle × TokenList :=
  match list.cursor with
  | some handle => (some handle, { list with cursor := list.next? handle })
  | none => (none, list)

/-- Whether every token has been delivered. -/
def isExhausted (list : TokenList) : Bool :=
  list.cursor.isNone

/-- Moves the cursor back to the front. -/
def rewind (list : TokenList) : TokenList :=
  { list with cursor := list.head }

/-- The tokens met on a walk along `follow` that makes at most the given number of stops. -/
def walk (list : TokenList) (follow : Node → Option Handle) :
    Nat → Option Handle → List (Handle × Token)
  | stops + 1, some handle =>
      match list.node? handle with
      | some node => (handle, node.token) :: list.walk follow stops (follow node)
      | none => []
  | _, _ => []

/-- The tokens with their handles, front to back.  A walk that meets no token twice makes
no more stops than there are slots. -/
def entries (list : TokenList) : List (Handle × Token) :=
  list.walk (·.next) list.slots.size list.head

/-- The tokens with their handles, back to front. -/
def entriesBackward (list : TokenList) : List (Handle × Token) :=
  list.walk (·.prev) list.slots.size list.tail

/-- The handles of the tokens, front to back. -/
def handles (list : TokenList) : List Handle :=
  list.entries.map (·.1)

/-- The texts of the tokens, front to back. -/
def texts (list : TokenList) : List String :=
  list.entries.map (·.2.text)

end TokenList

end LineLexer
