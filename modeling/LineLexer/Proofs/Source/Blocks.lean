import Mathlib.Algebra.GroupWithZero.Nat
import Mathlib.Data.List.Induction
import LineLexer.Proofs.Source.Continuation
/-!
The physical lines that a logical line is joined from.

The logical lines of a source divide its physical lines into blocks, one after the other.  Joining
the lines of a block takes away one backslash for each border between two of them.  It is the last
character of what has been joined so far, and therefore one of the backslashes at the end of a
physical line: of the line before the border or, where empty lines stand between, of an earlier
one.  If the source ends in a continuation, one more is taken away at its end.
-/

namespace LineLexer

/-- A physical line, cut before some of the backslashes at its end. -/
structure LinePiece where
  kept : List Char
  /-- The number of backslashes that are taken away. -/
  taken : Nat

/-- The physical line as it was. -/
def LinePiece.line (piece : LinePiece) : List Char :=
  piece.kept ++ List.replicate piece.taken '\\'

/-- The lines of a logical line.  Each of them but the first is joined at the cost of one
backslash. -/
structure LineBlock where
  pieces : List LinePiece
  taken_eq : (pieces.map LinePiece.taken).sum + 1 = pieces.length

namespace LineBlock

/-- The physical lines of a block. -/
def lines (block : LineBlock) : List (List Char) :=
  block.pieces.map LinePiece.line

/-- The number of backslashes that are taken away. -/
def taken (block : LineBlock) : Nat :=
  (block.pieces.map LinePiece.taken).sum

/-- What is kept of the lines of a block. -/
def text (block : LineBlock) : List Char :=
  block.pieces.flatMap LinePiece.kept

theorem taken_add_one (block : LineBlock) : block.taken + 1 = block.lines.length := by
  simpa [taken, lines] using block.taken_eq

theorem lines_ne_nil (block : LineBlock) : block.lines ≠ [] := by
  intro hnil
  have htaken := block.taken_add_one
  simp [hnil] at htaken

/-- The block of a line that is joined to none before it. -/
def ofLine (line : List Char) : LineBlock :=
  ⟨[⟨line, 0⟩], rfl⟩

theorem lines_ofLine (line : List Char) : (ofLine line).lines = [line] := by
  simp [ofLine, lines, LinePiece.line]

theorem text_ofLine (line : List Char) : (ofLine line).text = line := by
  simp [ofLine, text]

end LineBlock

/-- The last backslash of what is kept stands in front of the backslashes that have been taken
from its line, so it can be taken from the same line. -/
theorem exists_pieces_taken {pieces : List LinePiece} {front : List Char}
    (hkept : pieces.flatMap LinePiece.kept = front ++ ['\\']) :
    ∃ others : List LinePiece, others.map LinePiece.line = pieces.map LinePiece.line ∧
      others.flatMap LinePiece.kept = front ∧
      (others.map LinePiece.taken).sum = (pieces.map LinePiece.taken).sum + 1 := by
  induction pieces using List.reverseRecOn generalizing front with
  | nil => simp at hkept
  | append_singleton before last ih =>
      rcases List.eq_nil_or_concat' last.kept with hnil | ⟨kept, c, hlast⟩
      · -- Nothing is kept of the last line, so the backslash belongs to a line before it.
        have hbefore : before.flatMap LinePiece.kept = front ++ ['\\'] := by
          simpa [hnil] using hkept
        obtain ⟨others, hlines, hfront, hsum⟩ := ih hbefore
        refine ⟨others ++ [last], ?_, ?_, ?_⟩
        · simp [hlines]
        · simp [hfront, hnil]
        · simp [hsum, Nat.add_right_comm]
      · have hsplit : (before.flatMap LinePiece.kept ++ kept) ++ [c] = front ++ ['\\'] := by
          simpa [hlast] using hkept
        obtain ⟨hfront, hc⟩ := List.append_inj' hsplit rfl
        obtain rfl : c = '\\' := List.head_eq_of_cons_eq hc
        refine ⟨before ++ [⟨kept, last.taken + 1⟩], ?_, ?_, ?_⟩
        · simp [LinePiece.line, hlast, List.replicate_succ]
        · simpa using hfront
        · simp [Nat.add_assoc]

/-- A line is joined to a block that ends in a backslash. -/
theorem LineBlock.exists_join {block : LineBlock} {front : List Char}
    (htext : block.text = front ++ ['\\']) (line : List Char) :
    ∃ joined : LineBlock, joined.lines = block.lines ++ [line] ∧ joined.text = front ++ line := by
  obtain ⟨others, hlines, hfront, hsum⟩ := exists_pieces_taken htext
  have hlength : others.length = block.pieces.length := by
    simpa using congrArg List.length hlines
  have htaken : ((others ++ [LinePiece.mk line 0]).map LinePiece.taken).sum + 1 =
      (others ++ [LinePiece.mk line 0]).length := by
    have hblock := block.taken_eq
    simp only [List.map_append, List.map_singleton, List.sum_append, List.sum_singleton,
      List.length_append, List.length_singleton]
    omega
  refine ⟨⟨others ++ [LinePiece.mk line 0], htaken⟩, ?_, ?_⟩
  · simp [LineBlock.lines, hlines, LinePiece.line]
  · simp [LineBlock.text, hfront]

/-- The lines of the logical line that is still open, the first of them with the given number, and
what has been joined of them, with the backslash that continues it. -/
inductive Opened : Option LogicalLine → Nat → List Char → List (List Char) → Prop
  | nothing (start : Nat) {joined : List Char} (hends : ¬ EndsInBackslash joined) :
      Opened none start joined []
  | block (start : Nat) (block : LineBlock) {text : List Char}
      (htext : block.text = text ++ ['\\']) :
      Opened (some ⟨start, text⟩) start block.text block.lines

/-- The next physical line makes a block with the lines that are open. -/
theorem Opened.exists_block {carried : Option LogicalLine} {start : Nat} {joined : List Char}
    {opened : List (List Char)} (hopened : Opened carried start joined opened)
    (line : List Char) :
    ∃ block : LineBlock, block.lines = opened ++ [line] ∧ block.text = joinNext joined line ∧
      lineWith carried (start + opened.length) line = ⟨start, block.text⟩ := by
  cases hopened with
  | nothing start hends =>
      have hjoined : joinNext joined line = line := by
        simp [joinNext, beforeBackslash?_eq_none_iff.mpr hends]
      refine ⟨.ofLine line, LineBlock.lines_ofLine line, ?_, ?_⟩
      · rw [LineBlock.text_ofLine, hjoined]
      · rw [LineBlock.text_ofLine]
        rfl
  | block start block htext =>
      rename_i text
      have hbefore : beforeBackslash? block.text = some text :=
        beforeBackslash?_eq_some_iff.mpr htext.symm
      obtain ⟨next, hlines, hnext⟩ := block.exists_join htext line
      refine ⟨next, hlines, ?_, ?_⟩
      · rw [hnext, joinNext, hbefore, Option.getD_some]
      · rw [hnext]
        rfl

/-- Logical lines are joined from blocks, one from each, and the first physical line of the first
block has the given number.  If a continuation ends the last block, the logical line lacks the
backslash at the end of it as well. -/
structure JoinedFrom (continued : Prop) (start : Nat) (blocks : List LineBlock)
    (logical : List LogicalLine) : Prop where
  length_eq : logical.length = blocks.length
  line_of_split : ∀ front block back, blocks = front ++ block :: back →
    ∃ line, logical[front.length]? = some line ∧
      line.number = start + (front.flatMap LineBlock.lines).length ∧
      block.taken + 1 = block.lines.length ∧
      (block.text = line.text ∧ ¬ (back = [] ∧ continued) ∨
        block.text = line.text ++ ['\\'] ∧ back = [] ∧ continued)

theorem joinedFrom_nil (continued : Prop) (start : Nat) : JoinedFrom continued start [] [] where
  length_eq := rfl
  line_of_split front block back hsplit := by simp at hsplit

/-- The source ends in the block. -/
theorem joinedFrom_last {continued : Prop} (hcontinued : continued) (start : Nat)
    {block : LineBlock} {text : List Char} (htext : block.text = text ++ ['\\']) :
    JoinedFrom continued start [block] [⟨start, text⟩] where
  length_eq := rfl
  line_of_split front other back hsplit := by
    obtain ⟨rfl, rfl, rfl⟩ : front = [] ∧ other = block ∧ back = [] := by
      cases front <;> simp_all
    exact ⟨⟨start, text⟩, rfl, rfl, other.taken_add_one, Or.inr ⟨htext, rfl, hcontinued⟩⟩

/-- Another block comes before the blocks of some lines. -/
theorem JoinedFrom.cons {continued : Prop} {start : Nat} {block : LineBlock}
    {blocks : List LineBlock} {logical : List LogicalLine} (hlast : blocks = [] → ¬ continued)
    (hlater : JoinedFrom continued (start + block.lines.length) blocks logical) :
    JoinedFrom continued start (block :: blocks) (⟨start, block.text⟩ :: logical) where
  length_eq := congrArg (· + 1) hlater.length_eq
  line_of_split front other back hsplit := by
    cases front with
    | nil =>
        obtain ⟨rfl, rfl⟩ := List.cons.inj hsplit
        refine ⟨⟨start, block.text⟩, rfl, rfl, block.taken_add_one, Or.inl ⟨rfl, ?_⟩⟩
        exact fun hend => hlast hend.1 hend.2
    | cons first others =>
        obtain ⟨rfl, hrest⟩ := List.cons.inj hsplit
        obtain ⟨line, hline, hnumber, hblock⟩ := hlater.line_of_split others other back hrest
        refine ⟨line, hline, ?_, hblock⟩
        simp only [hnumber, List.flatMap_cons, List.length_append, Nat.add_assoc]

/-- The physical lines that are open and those that follow make up blocks. -/
theorem joinLines_joinedFrom {carried : Option LogicalLine} {start : Nat} {joined : List Char}
    {opened : List (List Char)} (hopened : Opened carried start joined opened)
    (lines : List (List Char)) :
    ∃ blocks : List LineBlock, blocks.flatMap LineBlock.lines = opened ++ lines ∧
      JoinedFrom (EndsInBackslash (lines.foldl joinNext joined)) start blocks
        (joinLines carried (start + opened.length) lines) := by
  induction lines generalizing carried start joined opened with
  | nil =>
      cases hopened with
      | nothing start hends => exact ⟨[], rfl, joinedFrom_nil _ _⟩
      | block start block htext =>
          have hends : EndsInBackslash block.text := ⟨_, htext.symm⟩
          exact ⟨[block], by simp, joinedFrom_last hends start htext⟩
  | cons line rest ih =>
      obtain ⟨block, hlines, htext, hline⟩ := hopened.exists_block line
      have hlength : block.lines.length = opened.length + 1 := by simp [hlines]
      rw [joinLines_cons, hline, List.foldl_cons, ← htext]
      cases hbefore : beforeBackslash? block.text with
      | some text =>
          have hends := (beforeBackslash?_eq_some_iff.mp hbefore).symm
          obtain ⟨blocks, hblocks, hjoined⟩ := ih (.block start block hends)
          refine ⟨blocks, by simp [hblocks, hlines], ?_⟩
          rwa [hlength] at hjoined
      | none =>
          have hends := beforeBackslash?_eq_none_iff.mp hbefore
          obtain ⟨blocks, hblocks, hjoined⟩ := ih (.nothing (start + block.lines.length) hends)
          refine ⟨block :: blocks, by simp [hblocks, hlines], ?_⟩
          have hlast : blocks = [] → ¬ EndsInBackslash (rest.foldl joinNext block.text) := by
            rintro rfl
            obtain rfl : rest = [] := by simpa using hblocks.symm
            exact hends
          have hnumber : start + opened.length + 1 = start + block.lines.length := by omega
          rw [hnumber]
          exact hjoined.cons hlast

namespace Source

variable (source : Source)

/-- The last logical line would go on if the source had one more physical line. -/
def EndsInContinuation : Prop :=
  EndsInBackslash (joinedText source.lines)

/-- The physical lines of a source divide into blocks, one for each logical line in their order. The
number of a logical line is that of the first physical line of its block, and its text is what is
left of the lines of the block when one backslash has been taken away for each of them but the
first.  Only backslashes at the end of physical lines are taken away.  If the source ends in a
continuation, the last logical line lacks one more, the last character of what is left of its
block; this is the case if the last physical line ends in a backslash, or is empty and stands after
a text that ended in two. -/
theorem logicalLines_joinedFrom :
    ∃ blocks : List LineBlock, blocks.flatMap LineBlock.lines = source.lines ∧
      JoinedFrom source.EndsInContinuation 1 blocks source.logicalLines ∧
      (∀ front block back, blocks = front ++ block :: back →
        ∃ first, block.lines.head? = some first ∧
          source.line? (1 + (front.flatMap LineBlock.lines).length) = some first) ∧
      (source.logicalLines.map (·.number)).Pairwise (· < ·) ∧
      (source.EndsInContinuation ↔ ∃ line, source.line? source.lineCount = some line ∧
        (EndsInBackslash line ∨ line = [] ∧
          EndsInTwoBackslashes (joinedText (source.lines.take (source.lineCount - 1))))) := by
  have hstart : Opened none 1 [] [] := .nothing 1 (by simp [EndsInBackslash])
  obtain ⟨blocks, hblocks, hjoined⟩ := joinLines_joinedFrom hstart source.lines
  refine ⟨blocks, hblocks, hjoined, ?_, source.logicalLines_number_ascending, ?_⟩
  · rintro front block back rfl
    obtain ⟨first, others, hlines⟩ := List.exists_cons_of_ne_nil block.lines_ne_nil
    have hsource : source.lines =
        front.flatMap LineBlock.lines ++ first :: (others ++ back.flatMap LineBlock.lines) := by
      simpa [hlines] using hblocks.symm
    refine ⟨first, by simp [hlines], ?_⟩
    simp [line?, hsource]
  · have hends := source.endsInBackslash_joinedText_iff (Nat.le_refl source.lineCount)
    have hall : source.lines.take source.lineCount = source.lines := List.take_length
    rwa [hall] at hends

end Source

end LineLexer
