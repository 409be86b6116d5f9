import Mathlib.Data.List.Forall2
import LineLexer.Proofs.Lexer.Draining
import LineLexer.Proofs.Lexer.History
import LineLexer.Proofs.Tokenized.Warnings
/-!
A source against a lexer that tokenizes its lines one after the other.

To tokenize a source a lexer reads each logical line under its number and is drained into one list.
A lexer that is simply given the lines counts them instead and returns the tokens of each line.
The two agree in all they find, in the tokens of each line, in the warnings and in the block comment
that is open at the end; what differs is the number under which a line is reported.
-/

namespace LineLexer

/-- The lines under the numbers that a lexer gives them which has counted up to the given number. -/
def countFrom : Nat → List LogicalLine → List LogicalLine
  | _, [] => []
  | count, line :: rest => ⟨count + 1, line.text⟩ :: countFrom (count + 1) rest

/-- The report moved to a line. -/
def Diagnostic.onLine (diagnostic : Diagnostic) (number : Nat) : Diagnostic :=
  { diagnostic with position := { diagnostic.position with line := number } }

/-- The second report is the first one with the number of a line in place of its count. -/
def Diagnostic.Renumbers (lines : List LogicalLine) (counted numbered : Diagnostic) : Prop :=
  ∃ index line, lines[index]? = some line ∧ counted.position.line = index + 1 ∧
    numbered = counted.onLine line.number

/-- The line starts in a block comment, and no step of its scan leaves it. -/
structure Reading.Stays (reading : Reading) : Prop where
  mode_eq : reading.mode = .blockComment
  step_mode : ∀ t ∈ reading.run.steps, t.scan.mode = .blockComment ∧ t.mode = .blockComment

/-- Of some lines the one at the index opened the block comment that is open after them: it
leaves a comment open that it has opened, and no line after it leaves that comment. -/
structure OpensLast (lines : List Reading) (index : Nat) (reading : Reading) : Prop where
  getElem?_eq : lines[index]? = some reading
  opensBlock : reading.run.opensBlock = true
  carried_eq : carriedMode reading.mode reading.line.text = .blockComment
  stays : ∀ later ∈ lines.drop (index + 1), later.Stays

section Warnings

theorem Step.warning?_onLine (t : Step) (report : Bool) (number other : Nat) :
    t.warning? report other = (t.warning? report number).map (·.onLine other) := by
  unfold Step.warning?
  split
  · rfl
  · split
    · rw [Option.map_map]
      rfl
    · rfl

/-- The number of a line shows in its warnings and makes no other difference to them. -/
theorem Run.warnings_onLine (run : Run) (report : Bool) (number other : Nat) :
    run.warnings report other = (run.warnings report number).map (·.onLine other) := by
  simp only [Run.warnings, List.map_filterMap, ← Step.warning?_onLine]

theorem Run.line_of_mem_warnings {run : Run} {report : Bool} {number : Nat}
    {diagnostic : Diagnostic} (hmem : diagnostic ∈ run.warnings report number) :
    diagnostic.position.line = number := by
  rw [Run.warnings_onLine run report number number] at hmem
  obtain ⟨found, _, rfl⟩ := List.mem_map.mp hmem
  rfl

/-- The warnings about lines that are counted are, one for one, those about the lines under their
numbers. -/
theorem warnings_renumbers (report : Bool) (front rest : List LogicalLine) (mode : Mode) :
    List.Forall₂ (Diagnostic.Renumbers (front ++ rest))
      ((readings mode (countFrom front.length rest)).flatMap (·.warnings report))
      ((readings mode rest).flatMap (·.warnings report)) := by
  induction rest generalizing front mode with
  | nil => exact .nil
  | cons line rest ih =>
      simp only [countFrom, readings, List.flatMap_cons]
      apply List.rel_append
      · have hnumber := Run.warnings_onLine (scanLine mode line.text) report (front.length + 1)
          line.number
        change List.Forall₂ _ ((scanLine mode line.text).warnings report (front.length + 1))
          ((scanLine mode line.text).warnings report line.number)
        rw [hnumber, List.forall₂_map_right_iff, List.forall₂_same]
        intro diagnostic hmem
        exact ⟨front.length, line, by simp, Run.line_of_mem_warnings hmem, rfl⟩
      · have hlater := ih (front ++ [line]) (carriedMode mode line.text)
        simpa using hlater

end Warnings

section Opening

theorem Mode.atLineEnd_eq_blockComment_iff (mode : Mode) :
    mode.atLineEnd = .blockComment ↔ mode = .blockComment := by
  cases mode <;> decide

/-- A run that ends in a block comment and opens none has been in one from the start. -/
theorem Scan.run_stays (scan : Scan) (symbols : List Symbol) :
    (scan.run symbols).last.mode = .blockComment → (scan.run symbols).opensBlock = false →
      scan.mode = .blockComment ∧ ∀ t ∈ (scan.run symbols).steps,
        t.scan.mode = .blockComment ∧ t.mode = .blockComment := by
  induction scan, symbols using Scan.run_induction with
  | hnil scan =>
      intro hlast _
      rw [Scan.run_nil] at hlast ⊢
      exact ⟨hlast, by simp⟩
  | hcons t rest ih =>
      intro hlast hopens
      rw [Scan.run_cons_last] at hlast
      rw [Run.opensBlock, Scan.run_cons_steps, List.any_cons, Bool.or_eq_false_iff] at hopens
      obtain ⟨hmode, hlater⟩ := ih hlast hopens.2
      have hstep : t.mode = .blockComment := hmode
      have hbefore : t.scan.mode = .blockComment := by
        simpa [Step.opensBlock, hstep] using hopens.1
      rw [Scan.run_cons_steps]
      exact ⟨hbefore, List.forall_mem_cons.mpr ⟨⟨hbefore, hstep⟩, hlater⟩⟩

theorem Reading.stays_of_carried {reading : Reading}
    (hcarried : carriedMode reading.mode reading.line.text = .blockComment)
    (hopens : reading.run.opensBlock = false) : reading.Stays := by
  have hlast := (Mode.atLineEnd_eq_blockComment_iff _).mp hcarried
  obtain ⟨hmode, hsteps⟩ := Scan.run_stays _ _ hlast hopens
  exact ⟨hmode, hsteps⟩

theorem Reading.Stays.opensBlock_eq {reading : Reading} (hstays : reading.Stays) :
    reading.run.opensBlock = false := by
  rw [Run.opensBlock, List.any_eq_false]
  intro t hmem
  simp [Step.opensBlock, (hstays.step_mode t hmem).1]

theorem openedOn_cons (number : Nat) (reading : Reading) (rest : List Reading) :
    openedOn number (reading :: rest) =
      openedOn (if reading.run.opensBlock then reading.line.number else number) rest :=
  rfl

/-- If a block comment is open after some lines, it was open before them and is not left on any,
or one of them opened it.  In the second case the number that is kept is that of this line, or its
count if the lines are counted. -/
theorem stays_or_opensLast {mode : Mode} {lines : List LogicalLine}
    (hopen : linesMode mode lines = .blockComment) (count : Nat) :
    mode = .blockComment ∧ (∀ reading ∈ readings mode lines, reading.Stays) ∧
        (∀ number, openedOn number (readings mode lines) = number ∧
          openedOn number (readings mode (countFrom count lines)) = number) ∨
      ∃ index reading, OpensLast (readings mode lines) index reading ∧
        ∀ number, openedOn number (readings mode lines) = reading.line.number ∧
          openedOn number (readings mode (countFrom count lines)) = count + index + 1 := by
  induction lines generalizing mode count with
  | nil =>
      left
      exact ⟨hopen, by simp [readings], fun number => ⟨rfl, rfl⟩⟩
  | cons line rest ih =>
      -- The counted line has the same run, so it opens a comment if the line does.
      have hrun : ∀ number, (⟨mode, ⟨number, line.text⟩⟩ : Reading).run =
          scanLine mode line.text := fun number => rfl
      simp only [readings, countFrom, openedOn_cons, hrun]
      rcases ih hopen (count + 1) with
        ⟨hcarried, hstays, hnumbers⟩ | ⟨index, reading, hlast, hnumbers⟩
      · cases hopens : (scanLine mode line.text).opensBlock with
        | true =>
            right
            refine ⟨0, ⟨mode, line⟩, ⟨rfl, hopens, hcarried, hstays⟩, ?_⟩
            intro number
            exact ⟨(hnumbers _).1, (hnumbers _).2⟩
        | false =>
            left
            have hfirst : (⟨mode, line⟩ : Reading).Stays :=
              Reading.stays_of_carried hcarried hopens
            exact ⟨hfirst.mode_eq, List.forall_mem_cons.mpr ⟨hfirst, hstays⟩, hnumbers⟩
      · right
        refine ⟨index + 1, reading, ?_, ?_⟩
        · exact ⟨hlast.getElem?_eq, hlast.opensBlock, hlast.carried_eq, hlast.stays⟩
        · intro number
          refine ⟨(hnumbers _).1, (hnumbers _).2.trans ?_⟩
          omega

theorem OpensLast.line_eq {mode : Mode} {lines : List LogicalLine} {index : Nat}
    {reading : Reading} (hlast : OpensLast (readings mode lines) index reading) :
    lines[index]? = some reading.line := by
  rw [← map_line_readings mode lines, List.getElem?_map, hlast.getElem?_eq]
  rfl

theorem linesMode_countFrom (mode : Mode) (count : Nat) (lines : List LogicalLine) :
    linesMode mode (countFrom count lines) = linesMode mode lines := by
  induction lines generalizing mode count with
  | nil => rfl
  | cons line rest ih => exact ih (carriedMode mode line.text) (count + 1)

end Opening

namespace Lexer

/-- The calls that give the lines to a lexer, one after the other. -/
def lineCalls (lines : List LogicalLine) : List Operation :=
  lines.map fun line => .tokenizeLine line.text

/-- The run of a loop that reads lines one after the other and pulls from each until a pull fails,
with the texts of each line and the lexer that is left. -/
inductive PullsLines : Lexer → List LogicalLine → List (List String) × Lexer → Prop
  | done (lexer : Lexer) : PullsLines lexer [] ([], lexer)
  | line {lexer drained last : Lexer} {line : LogicalLine} {rest : List LogicalLine}
      {texts : List String} {results : List (List String)}
      (hpull : (lexer.read line.text).PullsAll (texts, drained))
      (hlater : PullsLines drained rest (results, last)) :
      PullsLines lexer (line :: rest) (texts :: results, last)

variable {config : Config} {lexer : Lexer}

/-- The loop does what the calls do. -/
theorem pullsLines_iff (hworks : lexer.Works config) {lines : List LogicalLine}
    {outcome : List (List String) × Lexer} :
    lexer.PullsLines lines outcome ↔
      outcome = (lexer.handedOutBy (lineCalls lines), lexer.after (lineCalls lines)) := by
  induction lines generalizing lexer outcome with
  | nil =>
      constructor
      · rintro ⟨⟩
        rfl
      · rintro rfl
        exact .done lexer
  | cons line rest ih =>
      have hread : (lexer.read line.text).Works config :=
        hworks.readNumbered (lexer.line + 1) line.text
      constructor
      · intro hrun
        cases hrun with
        | line hpull hlater =>
            obtain ⟨rfl, rfl⟩ := Prod.mk.inj (hread.pullsAll_iff.mp hpull)
            obtain ⟨rfl, rfl⟩ := Prod.mk.inj ((ih hread.drain).mp hlater)
            rfl
      · rintro rfl
        exact .line (hread.pullsAll_iff.mpr rfl) ((ih hread.drain).mpr rfl)

/-- Each call returns the texts of its line. -/
theorem handedOutBy_lineCalls (hworks : lexer.Works config) (lines : List LogicalLine) :
    lexer.handedOutBy (lineCalls lines) =
      (readings lexer.mode lines).map fun reading => lineTexts config reading.run := by
  induction lines generalizing lexer with
  | nil => rfl
  | cons line rest ih =>
      have hnext : (lexer.perform (.tokenizeLine line.text)).Works config :=
        hworks.perform (.tokenizeLine line.text)
      obtain ⟨tokens, hdrained⟩ :=
        pullMany_frame (lexer.read line.text).tokens.size (lexer.read line.text)
      have hmode : (lexer.perform (.tokenizeLine line.text)).mode =
          carriedMode lexer.mode line.text := congrArg mode hdrained
      have htexts := (hworks.tokenizeLine_eq line.text).1
      simp only [lineCalls, List.map_cons, handedOutBy, handedOut, readings] at ih ⊢
      rw [htexts, ih hnext, hmode]
      rfl

/-- A lexer that is given the lines counts them, and otherwise reads them as it does under their
numbers. -/
theorem after_lineCalls (lexer : Lexer) (tokens : TokenList) (lines : List LogicalLine) :
    lexer.after (lineCalls lines) =
      ((countFrom lexer.line lines).foldl Tokenized.addLine (lexer, tokens)).1 := by
  induction lines generalizing lexer tokens with
  | nil => rfl
  | cons line rest ih =>
      obtain ⟨drained, hlexer⟩ :=
        Tokenized.addLine_lexer lexer tokens ⟨lexer.line + 1, line.text⟩
      have hcall : lexer.perform (.tokenizeLine line.text) =
          (Tokenized.addLine (lexer, tokens) ⟨lexer.line + 1, line.text⟩).1 := rfl
      have hline : (lexer.perform (.tokenizeLine line.text)).line = lexer.line + 1 := by
        rw [hcall, hlexer]
        rfl
      have hlater := ih (lexer.perform (.tokenizeLine line.text))
        (Tokenized.addLine (lexer, tokens) ⟨lexer.line + 1, line.text⟩).2
      rw [hline] at hlater
      exact hlater

end Lexer

namespace Tokenized

/-- What is added to the list after the tokens of a line. -/
def addedTerminators (config : Config) : List String :=
  if config.emitLineTerminator then [] else [lineTerminator]

/-- The run of a loop that reads lines under their numbers and pulls from each into one list until
the lexer is complete, with the lexer and the list that are left. -/
inductive FillsLines : Lexer × TokenList → List LogicalLine → Lexer × TokenList → Prop
  | done (before : Lexer × TokenList) : FillsLines before [] before
  | line {lexer drained : Lexer} {tokens filled : TokenList} {line : LogicalLine}
      {rest : List LogicalLine} {last : Lexer × TokenList}
      (hfill : (lexer.readNumbered line.number line.text).FillsUp tokens (drained, filled))
      (hlater : FillsLines
        (drained, if lexer.config.emitLineTerminator then filled
          else (filled.append lineTerminator).2) rest last) :
      FillsLines (lexer, tokens) (line :: rest) last

variable {config : Config} {lexer : Lexer}

theorem addLine_eq (lexer : Lexer) (tokens : TokenList) (line : LogicalLine) :
    addLine (lexer, tokens) line =
      ((lexer.readNumbered line.number line.text).drain.2,
        if lexer.config.emitLineTerminator then
          tokens.extend (lexer.readNumbered line.number line.text).drain.1
        else
          ((tokens.extend (lexer.readNumbered line.number line.text).drain.1).append
            lineTerminator).2) := by
  cases hemit : lexer.config.emitLineTerminator <;>
    simp [addLine, hemit, TokenList.extend]

/-- The loop reads the lines. -/
theorem fillsLines_iff (hworks : lexer.Works config) {tokens : TokenList}
    {lines : List LogicalLine} {outcome : Lexer × TokenList} :
    FillsLines (lexer, tokens) lines outcome ↔
      outcome = lines.foldl addLine (lexer, tokens) := by
  induction lines generalizing lexer tokens with
  | nil =>
      constructor
      · rintro ⟨⟩
        rfl
      · rintro rfl
        exact .done (lexer, tokens)
  | cons line rest ih =>
      have hread := hworks.readNumbered line.number line.text
      rw [List.foldl_cons, addLine_eq, ← ih hread.drain]
      constructor
      · intro hrun
        cases hrun with
        | line hfill hlater =>
            obtain ⟨rfl, rfl⟩ := Prod.mk.inj (hread.fillsUp_iff.mp hfill)
            exact hlater
      · exact .line (hread.fillsUp_iff.mpr rfl)

/-- The list of a source has the texts that the calls return, with the terminators added. -/
theorem readLines_texts_eq (config : Config) (lines : List LogicalLine) :
    (readLines config lines).2.texts =
      ((Lexer.ofConfig config).handedOutBy (Lexer.lineCalls lines)).flatMap
        (· ++ addedTerminators config) := by
  obtain ⟨entries, hholds, htexts⟩ := readLines_texts config lines
  have hadded : ∀ reading : Reading,
      Lexer.lineTexts config reading.run ++ addedTerminators config = reading.texts := by
    intro reading
    cases hemit : config.emitLineTerminator <;>
      simp [Lexer.lineTexts, addedTerminators, hemit, Reading.texts, Reading.run,
        lineTextsWithEnd]
  rw [TokenList.texts_eq hholds, htexts, linesTexts_eq_flatMap,
    Lexer.handedOutBy_lineCalls (Lexer.works_ofConfig config), List.flatMap_map]
  simp only [hadded]
  rfl

/-- What a lexer keeps that is given the lines of a source: it counts them. -/
theorem after_lineCalls_eq (config : Config) (lines : List LogicalLine) :
    let alone := (Lexer.ofConfig config).after (Lexer.lineCalls lines)
    alone.mode = linesMode .normal lines ∧
      alone.blockLine = openedOn 0 (readings .normal (countFrom 0 lines)) ∧
      alone.diagnostics =
        (readings .normal (countFrom 0 lines)).flatMap (·.warnings config.reportUnterminated) := by
  intro alone
  have halone : alone =
      ((countFrom 0 lines).foldl addLine (Lexer.ofConfig config, .empty 0)).1 :=
    Lexer.after_lineCalls (.ofConfig config) (.empty 0) lines
  obtain ⟨hmode, hblock, hdiagnostics⟩ :=
    foldl_addLine_lexer (.ofConfig config) (.empty 0) (countFrom 0 lines)
  rw [← halone] at hmode hblock hdiagnostics
  exact ⟨hmode.trans (linesMode_countFrom _ _ _), hblock, hdiagnostics⟩

/-- Tokenizing a source finds what a lexer finds that is given the logical lines of the source one
by one.  The loop that fills the list of the source and the loops that pull the tokens of each line
end, and the list has the texts of each line in their order, with a terminator after each line if
the lexer emits none.  The warnings are the same with the number of the line in place of its
count.  There is an error exactly if the lexer fails at the end of its input, and the line that it
is about is the one that opened the comment, which no later line leaves. -/
theorem ofSource_lineByLine (config : Config) (source : Source) :
    let lines := source.logicalLines
    let results := (Lexer.ofConfig config).handedOutBy (Lexer.lineCalls lines)
    let alone := (Lexer.ofConfig config).after (Lexer.lineCalls lines)
    let output := ofSource ⟨config, false⟩ source
    (∀ outcome, (Lexer.ofConfig config).PullsLines lines outcome ↔ outcome = (results, alone)) ∧
      (∀ outcome, FillsLines (.ofConfig config, .empty 0) lines outcome ↔
        outcome = readLines config lines) ∧
      output.tokens = (readLines config lines).2 ∧
      output.tokens.texts = results.flatMap (· ++ addedTerminators config) ∧
      (∀ diagnostic ∈ alone.diagnostics, diagnostic.severity = .warning) ∧
      ∃ warnings errors, output.diagnostics = warnings ++ errors ∧
        List.Forall₂ (Diagnostic.Renumbers lines) alone.diagnostics warnings ∧
        (alone.finish.1 = .ok () ∧ errors = [] ∨
          ∃ index reading, lines[index]? = some reading.line ∧
            OpensLast (readings .normal lines) index reading ∧
            alone.finish.1 = .error (.unterminated .blockComment (index + 1)) ∧
            errors = [.openAtEnd reading.line.number]) := by
  intro lines results alone output
  have hworks := Lexer.works_ofConfig config
  have hsettled : alone.Settled := (Lexer.settled_ofConfig config).after (Lexer.lineCalls lines)
  obtain ⟨hmode, hblock, hdiagnostics⟩ := after_lineCalls_eq config lines
  refine ⟨fun outcome => Lexer.pullsLines_iff hworks, fun outcome => fillsLines_iff hworks, rfl,
    readLines_texts_eq config lines, ?_, _, _, ofSource_diagnostics ⟨config, false⟩ source, ?_, ?_⟩
  · exact fun diagnostic hmem => (hsettled.warnsOfLiteral diagnostic hmem).severity_eq
  · rw [hdiagnostics]
    exact warnings_renumbers config.reportUnterminated [] lines .normal
  · by_cases hopen : linesMode .normal lines = .blockComment
    · right
      rcases stays_or_opensLast hopen 0 with ⟨hnormal, _⟩ | ⟨index, reading, hlast, hnumbers⟩
      · cases hnormal
      · obtain ⟨hnumber, hcount⟩ := hnumbers 0
        refine ⟨index, reading, hlast.line_eq, hlast, ?_, ?_⟩
        · have hfinish : alone.finish.1 =
              .error (.unterminated .blockComment alone.blockLine) := if_pos (hmode.trans hopen)
          rw [hfinish, hblock, hcount, Nat.zero_add]
        · rw [if_pos hopen, hnumber]
    · left
      refine ⟨?_, if_neg hopen⟩
      apply if_neg
      rwa [← hmode] at hopen

end Tokenized

end LineLexer
