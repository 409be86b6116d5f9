import LineLexer.Proofs.Lexer.Parking
import LineLexer.Proofs.TokenList.Capacity
/-!
How many slots a lexer needs.

A lexer clears its list for every line and fills it again, and pulling makes no slots.  So the slots
are those of the line with the most tokens, however many lines are read.
-/

namespace LineLexer

theorem TokenList.slots_advance (list : TokenList) : list.advance.2.slots = list.slots := by
  unfold TokenList.advance
  split <;> rfl

namespace Lexer

/-- The texts of the line that an operation reads, if it reads one. -/
def textsOf (lexer : Lexer) (operation : Operation) : List (List String) :=
  match operation.line? with
  | some line => [lineTexts lexer.config (scanLine lexer.mode line)]
  | none => []

/-- The texts of the lines that are read in a history, line by line. -/
def textsIn (lexer : Lexer) : List Operation → List (List String)
  | [] => []
  | operation :: later => lexer.textsOf operation ++ (lexer.perform operation).textsIn later

variable {lexer : Lexer} {config : Config}

theorem slots_pullMany (count : Nat) (lexer : Lexer) :
    (pullMany count lexer).2.tokens.slots = lexer.tokens.slots := by
  induction count generalizing lexer with
  | zero => rfl
  | succ count ih =>
      have hpull : lexer.pull.2.tokens.slots = lexer.tokens.slots :=
        lexer.tokens.slots_advance
      unfold pullMany
      split
      · rename_i text next hnext
        rw [hnext] at hpull
        exact (ih next).trans hpull
      · rename_i error next hnext
        rw [hnext] at hpull
        exact hpull

/-- A line makes as many slots as its tokens need. -/
theorem Works.slots_size_readNumbered (hworks : lexer.Works config) (number : Nat)
    (line : List Char) :
    (lexer.readNumbered number line).tokens.slots.size =
      max lexer.tokens.slots.size (lineTexts lexer.config (scanLine lexer.mode line)).length := by
  obtain ⟨_, tape, htokens⟩ := hworks
  have hcleared : lexer.tokens.clear.Linked := ⟨_, htokens.clear⟩
  have hfilled := hcleared.slots_size_extend (lineTexts lexer.config (scanLine lexer.mode line))
  rw [TokenList.slots_size_clear, TokenList.size_extend] at hfilled
  have hempty : lexer.tokens.clear.size = 0 := rfl
  rw [hempty, Nat.zero_add] at hfilled
  exact hfilled

theorem Works.slots_size_perform_le_iff (hworks : lexer.Works config) (operation : Operation)
    (bound : Nat) :
    (lexer.perform operation).tokens.slots.size ≤ bound ↔
      lexer.tokens.slots.size ≤ bound ∧
        ∀ texts ∈ lexer.textsOf operation, texts.length ≤ bound := by
  have hread (number : Nat) (line : List Char) :
      (lexer.readNumbered number line).tokens.slots.size ≤ bound ↔
        lexer.tokens.slots.size ≤ bound ∧
          ∀ texts ∈ [lineTexts lexer.config (scanLine lexer.mode line)], texts.length ≤ bound := by
    rw [hworks.slots_size_readNumbered, Nat.max_le, List.forall_mem_singleton]
  have hkept {after : Lexer} (hslots : after.tokens.slots = lexer.tokens.slots) :
      after.tokens.slots.size ≤ bound ↔
        lexer.tokens.slots.size ≤ bound ∧
          ∀ texts ∈ ([] : List (List String)), texts.length ≤ bound := by
    simp [hslots]
  cases operation with
  | read text => exact hread (lexer.line + 1) text
  | readNumbered number text => exact hread number text
  | tokenizeLine text =>
      have hdrained : (lexer.perform (.tokenizeLine text)).tokens.slots =
          (lexer.readNumbered (lexer.line + 1) text).tokens.slots := slots_pullMany _ _
      rw [hdrained]
      exact hread (lexer.line + 1) text
  | pull => exact hkept lexer.tokens.slots_advance
  | finish | takeDiagnostics => exact hkept rfl

theorem Works.slots_size_after_le_iff (hworks : lexer.Works config) (history : List Operation)
    (bound : Nat) :
    (lexer.after history).tokens.slots.size ≤ bound ↔
      lexer.tokens.slots.size ≤ bound ∧
        ∀ texts ∈ lexer.textsIn history, texts.length ≤ bound := by
  induction history generalizing lexer with
  | nil => exact (and_iff_left (fun texts hmem => absurd hmem List.not_mem_nil)).symm
  | cons operation later ih =>
      have hlater := ih (hworks.perform operation)
      rw [hworks.slots_size_perform_le_iff operation bound, and_assoc] at hlater
      rw [textsIn, List.forall_mem_append]
      exact hlater

/-- Whatever is done to a list that starts without tokens, the slots kept for reuse are the vacant
ones, each once.  A node that is put into the list gets a vacant slot, or a new one if none is
vacant, under a handle that named nothing, and makes no difference to any other handle.  The slots
are as many as the tokens and the slots kept for reuse together, and as many as the most tokens that
the list has had.  The list of a lexer has no more slots than the largest of the lines it has read
has tokens, with their terminators. -/
theorem slots_accounted_for :
    (∀ (tag : Nat) (edits : List TokenList.Edit),
      let list := (TokenList.empty tag).editAll edits
      (list.free.Nodup ∧ ∀ index, index ∈ list.free ↔ list.Vacant index) ∧
        (∀ node, let (handle, filled) := list.allocate node
          (list.Vacant handle.index ∨ list.free = [] ∧ handle.index = list.slots.size) ∧
            list.node? handle = none ∧
            ∀ other, filled.node? other =
              if other = handle then some node else list.node? other) ∧
        list.slots.size = list.size + list.free.length ∧
        IsGreatest (TokenList.pastSizes tag edits) list.slots.size) ∧
      ∀ (config : Config) (history : List Operation) (bound : Nat),
        ((ofConfig config).after history).tokens.slots.size ≤ bound ↔
          ∀ texts ∈ (ofConfig config).textsIn history, texts.length ≤ bound := by
  constructor
  · intro tag edits list
    have hlinked : list.Linked := (TokenList.linked_empty tag).editAll edits
    obtain ⟨tape, hlist⟩ := hlinked
    have hfree := hlist.holds.freeSlots
    refine ⟨⟨hfree.nodup, hfree.mem_iff⟩, ?_, hlist.holds.slots_size_eq,
      TokenList.slots_size_isGreatest tag edits⟩
    intro node
    exact ⟨hfree.vacant_allocate node, TokenList.node?_allocate_fresh hfree node,
      TokenList.node?_allocate hfree node⟩
  · intro config history bound
    have hbound := (works_ofConfig config).slots_size_after_le_iff history bound
    have hempty : (ofConfig config).tokens.slots.size = 0 := rfl
    rw [hempty] at hbound
    simpa using hbound

/-- A line of three tokens between two lines of one token: three slots, and two of them are kept
for reuse. -/
example :
    let history := ["a", "b+c", "d"].map fun line => Operation.read line.toList
    let tokens := ((ofConfig {}).after history).tokens
    tokens.size = 1 ∧ tokens.slots.size = 3 ∧ tokens.free.length = 2 := by
  decide +kernel

end Lexer

end LineLexer
