import LineLexer.Tokenized
import LineLexer.Proofs.Lexer.Delivery
/-!
How a source is read line by line.

The lexer hands out the tokens of each logical line, they are added to one list, and the mode
is carried from line to line.  So the list of a source has the tokens of the scans of its
lines, each line with a terminator, whether the lexer emits the terminator or it is added.
-/

namespace LineLexer

/-- The texts of a line and of its terminator. -/
def lineTextsWithEnd (mode : Mode) (line : List Char) : List String :=
  (scanLine mode line).tokens.map String.ofList ++ [lineTerminator]

/-- The texts of lines that follow one another, the first one starting in the given mode. -/
def linesTexts : Mode → List LogicalLine → List String
  | _, [] => []
  | mode, line :: rest =>
      lineTextsWithEnd mode line.text ++ linesTexts (carriedMode mode line.text) rest

namespace Tokenized

variable {config : Config} {lexer : Lexer} {tokens : TokenList} {tape : Tape}

/-- The texts that a line adds to the list are the same whether its terminator is emitted or
added afterwards. -/
theorem addLine_snd (hworks : lexer.Works config) (tokens : TokenList) (line : LogicalLine) :
    (addLine (lexer, tokens) line).2 =
      tokens.extend (lineTextsWithEnd lexer.mode line.text) := by
  have htexts := (hworks.readNumbered_texts line.number line.text).2
  have hadd : (addLine (lexer, tokens) line).2 =
      tokens.extend ((lexer.readNumbered line.number line.text).drain.1 ++
        if lexer.config.emitLineTerminator then [] else [lineTerminator]) := rfl
  rw [hadd, htexts, hworks.1]
  cases hemit : config.emitLineTerminator <;> simp [Lexer.lineTexts, lineTextsWithEnd, hemit]

/-- After a line the lexer goes on in the carried mode. -/
theorem addLine_fst (hworks : lexer.Works config) (tokens : TokenList) (line : LogicalLine) :
    (addLine (lexer, tokens) line).1.Works config ∧
      (addLine (lexer, tokens) line).1.mode = carriedMode lexer.mode line.text := by
  have hread := hworks.readNumbered line.number line.text
  refine ⟨hread.drain, ?_⟩
  obtain ⟨_, lineTape, hfilled⟩ := hread
  obtain ⟨drained, hdrain, _⟩ := Lexer.drain_eq hfilled
  have hadd : (addLine (lexer, tokens) line).1 =
      (lexer.readNumbered line.number line.text).drain.2 := rfl
  rw [hadd, hdrain]
  rfl

theorem foldl_addLine_texts (hworks : lexer.Works config) (htokens : tokens.Represents tape)
    (lines : List LogicalLine) :
    ∃ last, (lines.foldl addLine (lexer, tokens)).2.Represents last ∧
      last.entries.map entryText = tape.entries.map entryText ++ linesTexts lexer.mode lines := by
  induction lines generalizing lexer tokens tape with
  | nil => exact ⟨tape, htokens, by simp [linesTexts]⟩
  | cons line rest ih =>
      obtain ⟨hnext, hmode⟩ := addLine_fst hworks tokens line
      obtain ⟨added, hadded, hlonger⟩ := htokens.extend (lineTextsWithEnd lexer.mode line.text)
      rw [← addLine_snd hworks] at hlonger
      obtain ⟨last, hlast, htexts⟩ := ih hnext hlonger
      refine ⟨last, hlast, ?_⟩
      rw [htexts, Tape.entries_add, List.map_append, hadded, hmode, linesTexts,
        List.append_assoc]

/-- The list of a source has the texts of its lines. -/
theorem readLines_texts (config : Config) (lines : List LogicalLine) :
    ∃ entries, (readLines config lines).2.Holds entries ∧
      entries.map entryText = linesTexts .normal lines := by
  obtain ⟨last, hlast, htexts⟩ := foldl_addLine_texts (Lexer.works_ofConfig config)
    (TokenList.represents_empty 0) lines
  exact ⟨last.entries, hlast.holds, htexts⟩

end Tokenized

end LineLexer
