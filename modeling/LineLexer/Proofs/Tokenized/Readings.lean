import LineLexer.Proofs.Lexer.Parking
import LineLexer.Proofs.Tokenized.Lines
/-!
The lines of a source, each with the mode in which it starts.

A line is read like any other one in its mode, so what a source has to show is put together from
its readings: the tokens, the warnings and the line that opened the last block comment.  After
the last line only the mode is looked at, and a block comment that is open then is reported.
-/

namespace LineLexer

/-- A logical line with the mode in which it starts. -/
structure Reading where
  mode : Mode
  line : LogicalLine

namespace Reading

variable (reading : Reading)

/-- The run over the line. -/
def run : Run :=
  scanLine reading.mode reading.line.text

/-- The texts of the line and of its terminator. -/
def texts : List String :=
  lineTextsWithEnd reading.mode reading.line.text

def warnings (report : Bool) : List Diagnostic :=
  reading.run.warnings report reading.line.number

end Reading

/-- The readings of lines that follow one another, the first one starting in the given mode. -/
def readings : Mode → List LogicalLine → List Reading
  | _, [] => []
  | mode, line :: rest => ⟨mode, line⟩ :: readings (carriedMode mode line.text) rest

/-- The mode after some lines. -/
def linesMode (mode : Mode) (lines : List LogicalLine) : Mode :=
  lines.foldl (fun mode line => carriedMode mode line.text) mode

/-- The number of the line that opened the last block comment, or the given number if none of
the lines opens one. -/
def openedOn (number : Nat) (lines : List Reading) : Nat :=
  lines.foldl (fun number reading =>
    if reading.run.opensBlock then reading.line.number else number) number

/-- The report about a block comment that is open at the end of the input, with the number of
the line that opened it. -/
def Diagnostic.openAtEnd (number : Nat) : Diagnostic :=
  .ofError (.unterminated .blockComment number) ⟨number, 1⟩

section Append

variable (mode : Mode) (first second : List LogicalLine)

theorem linesMode_cons (line : LogicalLine) (rest : List LogicalLine) :
    linesMode mode (line :: rest) = linesMode (carriedMode mode line.text) rest :=
  rfl

theorem linesMode_append :
    linesMode mode (first ++ second) = linesMode (linesMode mode first) second :=
  List.foldl_append

theorem readings_append : readings mode (first ++ second) =
    readings mode first ++ readings (linesMode mode first) second := by
  induction first generalizing mode with
  | nil => rfl
  | cons line rest ih =>
      rw [List.cons_append, readings, ih, linesMode_cons, readings, List.cons_append]

theorem openedOn_append (number : Nat) (first second : List Reading) :
    openedOn number (first ++ second) = openedOn (openedOn number first) second :=
  List.foldl_append

theorem linesTexts_eq_flatMap (lines : List LogicalLine) :
    linesTexts mode lines = (readings mode lines).flatMap Reading.texts := by
  induction lines generalizing mode with
  | nil => rfl
  | cons line rest ih =>
      rw [linesTexts, readings, List.flatMap_cons, ih]
      rfl

theorem linesTexts_append : linesTexts mode (first ++ second) =
    linesTexts mode first ++ linesTexts (linesMode mode first) second := by
  simp only [linesTexts_eq_flatMap, readings_append, List.flatMap_append]

end Append

section Opened

/-- A run that ends in a block comment started in one or opened one. -/
theorem Scan.run_opensBlock (scan : Scan) (symbols : List Symbol) :
    (scan.run symbols).last.mode = .blockComment → scan.mode ≠ .blockComment →
      (scan.run symbols).opensBlock = true := by
  induction scan, symbols using Scan.run_induction with
  | hnil scan =>
      intro hlast hmode
      rw [Scan.run_nil] at hlast
      exact absurd hlast hmode
  | hcons t rest ih =>
      intro hlast hmode
      rw [Scan.run_cons_last] at hlast
      rw [Run.opensBlock, Scan.run_cons_steps, List.any_cons, Bool.or_eq_true]
      by_cases hopens : t.mode = .blockComment
      · left
        simp [Step.opensBlock, hopens, hmode]
      · exact Or.inr (ih hlast hopens)

/-- A block comment that is carried to the next line was carried to the line or opened on it. -/
theorem scanLine_opensBlock {mode : Mode} {line : List Char}
    (hcarried : carriedMode mode line = .blockComment) (hmode : mode ≠ .blockComment) :
    (scanLine mode line).opensBlock = true := by
  apply Scan.run_opensBlock _ _ ?_ hmode
  cases hlast : (scanLine mode line).last.mode <;>
    simp_all [carriedMode, Scan.park, Mode.atLineEnd, scanLine]

/-- If a block comment is open after some lines and not before them, one of them opened it, and
it makes no difference which number is given. -/
theorem openedOn_eq_of_linesMode {mode : Mode} {lines : List LogicalLine}
    (hlast : linesMode mode lines = .blockComment) (hmode : mode ≠ .blockComment)
    (number other : Nat) :
    openedOn number (readings mode lines) = openedOn other (readings mode lines) := by
  induction lines generalizing mode number other with
  | nil => exact absurd hlast hmode
  | cons line rest ih =>
      rw [readings, openedOn, openedOn, List.foldl_cons, List.foldl_cons]
      by_cases hcarried : carriedMode mode line.text = .blockComment
      · have hopens : (⟨mode, line⟩ : Reading).run.opensBlock = true :=
          scanLine_opensBlock hcarried hmode
        rw [if_pos hopens, if_pos hopens]
      · exact ih hlast hcarried _ _

end Opened

namespace Tokenized

/-- What the lexer keeps of a line, apart from tokens. -/
theorem addLine_lexer (lexer : Lexer) (tokens : TokenList) (line : LogicalLine) :
    ∃ drained, (addLine (lexer, tokens) line).1 =
      { lexer.readNumbered line.number line.text with tokens := drained } :=
  Lexer.pullMany_frame _ (lexer.readNumbered line.number line.text)

theorem foldl_addLine_lexer (lexer : Lexer) (tokens : TokenList) (lines : List LogicalLine) :
    let last := (lines.foldl addLine (lexer, tokens)).1
    last.mode = linesMode lexer.mode lines ∧
      last.blockLine = openedOn lexer.blockLine (readings lexer.mode lines) ∧
      last.diagnostics = lexer.diagnostics ++
        (readings lexer.mode lines).flatMap (·.warnings lexer.config.reportUnterminated) := by
  induction lines generalizing lexer tokens with
  | nil => exact ⟨rfl, rfl, (List.append_nil _).symm⟩
  | cons line rest ih =>
      obtain ⟨drained, hlexer⟩ := addLine_lexer lexer tokens line
      obtain ⟨hmode, hblock, hdiagnostics⟩ :=
        ih (addLine (lexer, tokens) line).1 (addLine (lexer, tokens) line).2
      rw [List.foldl_cons]
      refine ⟨hmode.trans ?_, hblock.trans ?_, hdiagnostics.trans ?_⟩
      · rw [hlexer]
        rfl
      · rw [hlexer]
        rfl
      · rw [hlexer, readings, List.flatMap_cons, ← List.append_assoc]
        rfl

/-- What there is to report when the input ends. -/
def endDiagnostics (lexer : Lexer) : List Diagnostic :=
  match lexer.finish.1 with
  | .ok _ => []
  | .error error => [endDiagnostic lexer.line error]

theorem endDiagnostics_eq (lexer : Lexer) : endDiagnostics lexer =
    if lexer.mode = .blockComment then [.openAtEnd lexer.blockLine] else [] := by
  unfold endDiagnostics Lexer.finish
  by_cases hmode : lexer.mode = .blockComment
  · rw [if_pos hmode, if_pos hmode]
    rfl
  · rw [if_neg hmode, if_neg hmode]

/-- The reports about a source are the warnings about its lines, and the error about the block
comment that is open at the end. -/
theorem ofSource_diagnostics (options : Options) (source : Source) :
    (ofSource options source).diagnostics =
      (readings .normal source.logicalLines).flatMap
          (·.warnings options.tokenizer.reportUnterminated) ++
        if linesMode .normal source.logicalLines = .blockComment then
          [.openAtEnd (openedOn 0 (readings .normal source.logicalLines))]
        else [] := by
  let lexer := (readLines options.tokenizer source.logicalLines).1
  obtain ⟨hmode, hblock, hdiagnostics⟩ :
      lexer.mode = linesMode .normal source.logicalLines ∧
        lexer.blockLine = openedOn 0 (readings .normal source.logicalLines) ∧
        lexer.diagnostics = [] ++ (readings .normal source.logicalLines).flatMap
          (·.warnings options.tokenizer.reportUnterminated) :=
    foldl_addLine_lexer (.ofConfig options.tokenizer) (.empty 0) source.logicalLines
  have hreports : (ofSource options source).diagnostics =
      lexer.diagnostics ++ endDiagnostics lexer.takeDiagnostics.2 := rfl
  rw [hreports, endDiagnostics_eq]
  change lexer.diagnostics ++ (if lexer.mode = .blockComment then
    [Diagnostic.openAtEnd lexer.blockLine] else []) = _
  rw [hmode, hblock, hdiagnostics]
  rfl

end Tokenized

end LineLexer
