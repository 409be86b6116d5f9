import LineLexer.Proofs.Source.Concatenation
import LineLexer.Proofs.Tokenized.CommentRemoval
/-!
A source that is put together from two sources.

If the first one ends its lines, continues none of them and leaves no block comment open, the
lexer comes to the second one as if nothing had been read before, but for the numbers of the
lines.  So the tokens, the counts and the reports of the whole are those of the two parts, the
reports of the second one with its lines further down.
-/

namespace LineLexer

open CommentKind

/-- The same report a number of lines further down.  The message about an open block comment
gives the number of its line. -/
def Diagnostic.later (count : Nat) (diagnostic : Diagnostic) : Diagnostic :=
  let line := diagnostic.position.line
  { diagnostic with
    message :=
      if diagnostic.message = (LexError.unterminated .blockComment line).message then
        (LexError.unterminated .blockComment (line + count)).message
      else diagnostic.message
    position := { diagnostic.position with line := line + count } }

/-- The same line with the same mode, a number of physical lines further down. -/
def Reading.later (count : Nat) (reading : Reading) : Reading :=
  { reading with line := reading.line.later count }

theorem openAtEnd_later (number count : Nat) :
    (Diagnostic.openAtEnd number).later count = .openAtEnd (number + count) := by
  unfold Diagnostic.later
  dsimp only
  rw [if_pos]
  · rfl
  · rfl

/-- No warning about a literal reads like the error about a block comment. -/
theorem message_openAtLineEnd_ne (construct : Construct) (position : Position) (number : Nat) :
    (Diagnostic.openAtLineEnd construct position).message ≠
      (LexError.unterminated .blockComment number).message := by
  intro hmessage
  have hchars : ("unterminated " ++ construct.text ++ " at end of line").toList =
      ("unterminated " ++ "block comment" ++ " opened on line " ++ toString number).toList :=
    congrArg String.toList hmessage
  simp only [String.toList_append, List.append_assoc, List.append_right_inj] at hchars
  cases construct <;> simp [Construct.text] at hchars

theorem openAtLineEnd_later (construct : Construct) (number column count : Nat) :
    (Diagnostic.openAtLineEnd construct ⟨number, column⟩).later count =
      .openAtLineEnd construct ⟨number + count, column⟩ := by
  unfold Diagnostic.later
  dsimp only
  rw [if_neg (message_openAtLineEnd_ne construct _ _)]
  rfl

theorem Step.warning?_later {t : Step} (hcoherent : t.scan.Coherent) (report : Bool)
    (number count : Nat) :
    t.warning? report (number + count) = (t.warning? report number).map (·.later count) := by
  rw [Step.warning?, Step.warning?, if_neg (Step.action_ne_error hcoherent),
    if_neg (Step.action_ne_error hcoherent)]
  cases report with
  | false => rfl
  | true =>
      rw [if_pos rfl, if_pos rfl, Option.map_map]
      congr 1
      funext construct
      exact (openAtLineEnd_later construct number _ count).symm

namespace Reading

variable (reading : Reading) (count : Nat)

theorem warnings_later (report : Bool) :
    (reading.later count).warnings report = (reading.warnings report).map (·.later count) := by
  rw [warnings, warnings, Run.warnings, Run.warnings, List.map_filterMap]
  exact List.filterMap_congr fun t ht => Step.warning?_later (scanLine_coherent ht) report _ count

end Reading

section Later

variable (mode : Mode) (count : Nat) (lines : List LogicalLine)

theorem readings_later :
    readings mode (lines.map (·.later count)) = (readings mode lines).map (·.later count) := by
  induction lines generalizing mode with
  | nil => rfl
  | cons line rest ih =>
      rw [List.map_cons, readings, readings, List.map_cons]
      exact congrArg _ (ih (carriedMode mode line.text))

theorem linesMode_later : linesMode mode (lines.map (·.later count)) = linesMode mode lines := by
  rw [linesMode, List.foldl_map]
  rfl

theorem linesTexts_later :
    linesTexts mode (lines.map (·.later count)) = linesTexts mode lines := by
  rw [linesTexts_eq_flatMap, linesTexts_eq_flatMap, readings_later, List.flatMap_map]
  rfl

theorem openedOn_later (number : Nat) (lines : List Reading) :
    openedOn (number + count) (lines.map (·.later count)) = openedOn number lines + count := by
  induction lines generalizing number with
  | nil => rfl
  | cons reading rest ih =>
      have hrun : (reading.later count).run = reading.run := rfl
      have hnext : (if (reading.later count).run.opensBlock then (reading.later count).line.number
          else number + count) =
          (if reading.run.opensBlock then reading.line.number else number) + count := by
        rw [hrun]
        split <;> rfl
      rw [List.map_cons, openedOn, List.foldl_cons, hnext]
      exact ih _

end Later

/-- Between two lines only a block comment can be open. -/
theorem linesMode_outlasts {mode : Mode} (hmode : mode = .normal ∨ mode = .blockComment)
    (lines : List LogicalLine) :
    linesMode mode lines = .normal ∨ linesMode mode lines = .blockComment := by
  induction lines generalizing mode with
  | nil => exact hmode
  | cons line rest ih => exact ih (Mode.atLineEnd_outlasts _)

namespace Tokenized

/-- A source without errors leaves no block comment open. -/
theorem linesMode_of_not_hasErrors {options : Options} {source : Source}
    (hclean : (ofSource options source).hasErrors = false) :
    linesMode .normal source.logicalLines = .normal := by
  rcases linesMode_outlasts (Or.inl rfl) source.logicalLines with hmode | hmode
  · exact hmode
  · rw [hasErrors, ofSource_diagnostics, if_pos hmode, List.any_append] at hclean
    simp [Diagnostic.openAtEnd, Diagnostic.ofError, Diagnostic.isError] at hclean

/-- The reports about a source after another one that leaves no block comment open. -/
theorem diagnostics_append {options : Options} {first second whole : Source} {count : Nat}
    (hlines : whole.logicalLines = first.logicalLines ++
      second.logicalLines.map (·.later count))
    (hmode : linesMode .normal first.logicalLines = .normal) :
    (ofSource options whole).diagnostics = (ofSource options first).diagnostics ++
      (ofSource options second).diagnostics.map (·.later count) := by
  have hopen : linesMode .normal second.logicalLines = .blockComment →
      openedOn (openedOn 0 (readings .normal first.logicalLines))
          ((readings .normal second.logicalLines).map (·.later count)) =
        openedOn 0 (readings .normal second.logicalLines) + count := by
    intro hlast
    rw [← linesMode_later] at hlast
    rw [← openedOn_later, ← readings_later]
    exact openedOn_eq_of_linesMode hlast (by decide) _ _
  rw [ofSource_diagnostics, ofSource_diagnostics, ofSource_diagnostics, hlines, readings_append,
    linesMode_append, hmode, linesMode_later, readings_later, openedOn_append, List.flatMap_append,
    List.map_append, List.map_flatMap, List.flatMap_map,
    if_neg (show Mode.normal ≠ .blockComment by decide), List.append_nil, List.append_assoc]
  simp only [Reading.warnings_later]
  congr 2
  split
  · rename_i hlast
    rw [hopen hlast, List.map_singleton, openAtEnd_later]
  · rfl

/-- The tokens of a source after another one that leaves no block comment open, and the counts
of its comments. -/
theorem texts_append {options : Options} {first second whole : Source} {count : Nat}
    (hlines : whole.logicalLines = first.logicalLines ++
      second.logicalLines.map (·.later count))
    (hmode : linesMode .normal first.logicalLines = .normal) :
    (ofSource options whole).tokens.texts =
        (ofSource options first).tokens.texts ++ (ofSource options second).tokens.texts ∧
      (ofSource options whole).comments =
        ⟨(ofSource options first).comments.inline + (ofSource options second).comments.inline,
          (ofSource options first).comments.block + (ofSource options second).comments.block⟩ := by
  obtain ⟨hwhole, hcounts⟩ := ofSource_texts options whole
  obtain ⟨hfirst, hfirstCounts⟩ := ofSource_texts options first
  obtain ⟨hsecond, hsecondCounts⟩ := ofSource_texts options second
  -- Removal comes to the border in code, like the lexer.
  have hcode := followAll_linesTexts .normal first.logicalLines
  rw [hmode] at hcode
  have htexts : linesTexts .normal whole.logicalLines =
      linesTexts .normal first.logicalLines ++ linesTexts .normal second.logicalLines := by
    rw [hlines, linesTexts_append, hmode, linesTexts_later]
  rw [hwhole, hfirst, hsecond, hcounts, hfirstCounts, hsecondCounts, htexts]
  cases options.stripComments with
  | false => exact ⟨rfl, rfl⟩
  | true =>
      have hsurvivors := survivors_append both id none (linesTexts .normal first.logicalLines)
        (linesTexts .normal second.logicalLines)
      have hopenings := openings_append both id none (linesTexts .normal first.logicalLines)
        (linesTexts .normal second.logicalLines)
      rw [show followAll both id none _ = none from hcode] at hsurvivors hopenings
      refine ⟨hsurvivors, ?_⟩
      rw [if_pos rfl, if_pos rfl, if_pos rfl, hopenings, List.count_append, List.count_append]

/-- If the first text is empty or ends its last line, has no physical line that ends in a
backslash and no errors, then the tokens, the counts and the reports of the two texts together
are those of the two texts, the reports about the second one with its lines further down by the
number of lines of the first one. -/
theorem ofText_append (options : Options) (first second : String)
    (hends : first = "" ∨ first.toList.getLast? = some '\n')
    (hplain : ∀ line ∈ (Source.mk "<input>" first).lines, ¬ EndsInBackslash line)
    (hclean : (ofText options first).hasErrors = false) :
    let whole := ofText options (first ++ second)
    let front := ofText options first
    let back := ofText options second
    let count := (Source.mk "<input>" first).lineCount
    whole.tokens.texts = front.tokens.texts ++ back.tokens.texts ∧
      whole.comments = ⟨front.comments.inline + back.comments.inline,
        front.comments.block + back.comments.block⟩ ∧
      whole.diagnostics = front.diagnostics ++ back.diagnostics.map (·.later count) := by
  intro whole front back count
  have hborder : EndsItsLines first.toList := by
    rcases hends with rfl | hfeed
    · exact Or.inl rfl
    · exact Or.inr hfeed
  have hlines := Source.logicalLines_append "<input>" hborder hplain second
  have hmode := linesMode_of_not_hasErrors hclean
  obtain ⟨htexts, hcomments⟩ := texts_append hlines hmode
  exact ⟨htexts, hcomments, diagnostics_append hlines hmode⟩

/-- A warning in the first text, a block comment left open in the second one, and comments to
remove in both. -/
theorem ofText_append_stripped :
    let first := "a /* b\n*/ \"c\n"
    let second := "d // e\n/*"
    (first = "" ∨ first.toList.getLast? = some '\n') ∧
      (∀ line ∈ (Source.mk "<input>" first).lines, ¬ EndsInBackslash line) ∧
      (ofText .strippingComments first).hasErrors = false ∧
      let whole := ofText .strippingComments (first ++ second)
      whole.tokens.texts = ["a", "\"c", "\n", "d", "\n"] ∧ whole.comments = ⟨1, 2⟩ ∧
        whole.diagnostics = [.openAtLineEnd .stringLiteral ⟨2, 4⟩, .openAtEnd 4] := by
  intro first second
  have hends : first = "" ∨ first.toList.getLast? = some '\n' := by decide
  have hplain : ∀ line ∈ (Source.mk "<input>" first).lines, ¬ EndsInBackslash line := by
    unfold EndsInBackslash
    decide
  have hclean : (ofText .strippingComments first).hasErrors = false := by decide +kernel
  obtain ⟨htexts, hcomments, hdiagnostics⟩ :=
    ofText_append .strippingComments first second hends hplain hclean
  refine ⟨hends, hplain, hclean, htexts.trans ?_, hcomments.trans ?_, hdiagnostics.trans ?_⟩
  · decide +kernel
  · decide +kernel
  · decide +kernel

end Tokenized

end LineLexer
