import LineLexer.Proofs.Scan.Comments
import LineLexer.Proofs.Tokenized.Readings
/-!
Removal of comments from a source removes what the scans of its lines took for comments.

The scans label the tokens of all lines, and their steps say where comments are entered.
Removal works on one list of texts without either; its tokens and its counts agree with the
labels and the steps on every source.
-/

namespace LineLexer

open CommentKind

/-- The labelled tokens of lines that follow one another. -/
def labelledLines : Mode → List LogicalLine → List (String × Bool)
  | _, [] => []
  | mode, line :: rest =>
      labelledLine mode line.text ++ labelledLines (carriedMode mode line.text) rest

/-- The steps of the scans of lines that follow one another. -/
def linesSteps : Mode → List LogicalLine → List Step
  | _, [] => []
  | mode, line :: rest =>
      (scanLine mode line.text).steps ++ linesSteps (carriedMode mode line.text) rest

theorem map_fst_labelledLines (mode : Mode) (lines : List LogicalLine) :
    (labelledLines mode lines).map Prod.fst = linesTexts mode lines := by
  induction lines generalizing mode with
  | nil => rfl
  | cons line rest ih =>
      rw [labelledLines, linesTexts, List.map_append, ih, labelledLine, List.map_append,
        Run.map_fst_labelled, lineTextsWithEnd]
      rfl

/-- A token of lines is a line terminator, or a step of a scan delivers it. -/
theorem mem_labelledLines {mode : Mode} {lines : List LogicalLine} {labelled : String × Bool}
    (hmem : labelled ∈ labelledLines mode lines) :
    labelled.1 = lineTerminator ∨ ∃ t : Step, t.scan.Coherent ∧ t.labelled? = some labelled := by
  induction lines generalizing mode with
  | nil => cases hmem
  | cons line rest ih =>
      rw [labelledLines, labelledLine, List.mem_append, List.mem_append,
        List.mem_singleton] at hmem
      rcases hmem with (htoken | rfl) | hlater
      · obtain ⟨t, ht, hlabelled⟩ := List.mem_filterMap.mp htoken
        exact Or.inr ⟨t, scanLine_coherent ht, hlabelled⟩
      · exact Or.inl rfl
      · exact ih hlater

/-- Removal stays in step with the scans from line to line. -/
theorem linesMode_inStep (mode : Mode) (lines : List LogicalLine) :
    InStep mode.comment? (labelledLines mode lines)
      ((linesSteps mode lines).filterMap Step.opening?) (linesMode mode lines).comment? := by
  induction lines generalizing mode with
  | nil => exact .nil _
  | cons line rest ih =>
      rw [linesSteps, List.filterMap_append]
      exact (line_inStep mode line.text).append (ih (carriedMode mode line.text))

theorem lines_inStep (mode : Mode) (lines : List LogicalLine) :
    ∃ last, InStep mode.comment? (labelledLines mode lines)
      ((linesSteps mode lines).filterMap Step.opening?) last :=
  ⟨_, linesMode_inStep mode lines⟩

/-- After the texts of some lines removal is in the comment of the mode. -/
theorem followAll_linesTexts (mode : Mode) (lines : List LogicalLine) :
    followAll both id mode.comment? (linesTexts mode lines) = (linesMode mode lines).comment? := by
  rw [← map_fst_labelledLines, followAll_map, (linesMode_inStep mode lines).followAll_eq]

theorem count_opening? (steps : List Step) :
    (steps.filterMap Step.opening?).count .inline =
        steps.countP (·.action = .startInlineComment) ∧
      (steps.filterMap Step.opening?).count .block =
        steps.countP (·.action = .startBlockComment) := by
  rw [List.count_filterMap, List.count_filterMap]
  constructor
  · apply List.countP_congr
    intro t _
    unfold Step.opening?
    cases t.action <;> decide
  · apply List.countP_congr
    intro t _
    unfold Step.opening?
    cases t.action <;> decide

namespace TokenList

variable {list : TokenList} {entries : List (Handle × Token)} {labelled : List (String × Bool)}

/-- What removal leaves is a matter of texts alone, and so are its counts. -/
theorem Holds.stripComments_texts (hholds : list.Holds entries)
    (htexts : labelled.map Prod.fst = entries.map entryText) :
    list.stripComments.2.texts = (survivors both Prod.fst none labelled).map Prod.fst := by
  rw [TokenList.stripComments, hholds.removeComments_texts, texts_eq hholds, ← htexts,
    map_survivors]

theorem Holds.stripComments_counts (hholds : list.Holds entries)
    (htexts : labelled.map Prod.fst = entries.map entryText) :
    list.stripComments.1 =
      ⟨(openings both Prod.fst none labelled).count .inline,
        (openings both Prod.fst none labelled).count .block⟩ := by
  rw [TokenList.stripComments, hholds.removeComments_counts, texts_eq hholds, ← htexts,
    openings_map]

end TokenList

namespace Tokenized

/-- The tokens of a source and the counts of its comments depend on the texts of its lines. -/
theorem ofSource_texts (options : Options) (source : Source) :
    let texts := linesTexts .normal source.logicalLines
    (ofSource options source).tokens.texts =
        (if options.stripComments then survivors both id none texts else texts) ∧
      (ofSource options source).comments =
        if options.stripComments then
          ⟨(openings both id none texts).count .inline, (openings both id none texts).count .block⟩
        else {} := by
  intro texts
  obtain ⟨config, removes⟩ := options
  obtain ⟨entries, hholds, hentries⟩ := readLines_texts config source.logicalLines
  have htexts : (readLines config source.logicalLines).2.texts = texts := by
    rw [TokenList.texts_eq hholds, hentries]
  cases removes with
  | false => exact ⟨htexts, rfl⟩
  | true =>
      rw [if_pos rfl, if_pos rfl, ← htexts]
      exact ⟨hholds.removeComments_texts both, hholds.removeComments_counts both⟩

/-- With removal of comments the tokens of a source are those that belong to no comment, in
their order, and the counts are the numbers of times a scan entered a comment. -/
theorem ofSource_stripComments (config : Config) (source : Source) :
    let labelled := labelledLines .normal source.logicalLines
    let steps := linesSteps .normal source.logicalLines
    (ofSource ⟨config, false⟩ source).tokens.texts = labelled.map Prod.fst ∧
      (ofSource ⟨config, true⟩ source).tokens.texts =
        (labelled.filter (!·.2)).map Prod.fst ∧
      (ofSource ⟨config, true⟩ source).comments.inline =
        steps.countP (·.action = .startInlineComment) ∧
      (ofSource ⟨config, true⟩ source).comments.block =
        steps.countP (·.action = .startBlockComment) := by
  intro labelled steps
  obtain ⟨entries, hholds, htexts⟩ := readLines_texts config source.logicalLines
  have hlabelled : labelled.map Prod.fst = entries.map entryText := by
    rw [htexts]
    exact map_fst_labelledLines .normal source.logicalLines
  have hkept := hholds.stripComments_texts hlabelled
  have hcounts := hholds.stripComments_counts hlabelled
  obtain ⟨_, hstep⟩ := lines_inStep .normal source.logicalLines
  obtain ⟨hinline, hblock⟩ := count_opening? steps
  rw [← hstep.openings_eq] at hinline hblock
  refine ⟨?_, ?_, ?_, ?_⟩
  · exact (TokenList.texts_eq hholds).trans hlabelled.symm
  · rw [← hstep.survivors_eq]
    exact hkept
  · rw [← hinline]
    exact congrArg CommentCounts.inline hcounts
  · rw [← hblock]
    exact congrArg CommentCounts.block hcounts

end Tokenized

end LineLexer
