import LineLexer.Proofs.Tokenized.Warnings
/-!
What the switches of a lexer change in a source.

The line terminators of a source are emitted by the lexer or added behind its tokens, and either way
there is one at the end of each logical line and none before it.  So the switches show in the
reports alone, and there only in whether literals that are cut off are warned about.
-/

namespace LineLexer

namespace Reading

variable (reading : Reading)

/-- The texts of the tokens of the line, without its terminator. -/
def tokenTexts : List String :=
  reading.run.tokens.map String.ofList

theorem lineTerminator_not_mem_tokenTexts : lineTerminator ∉ reading.tokenTexts := by
  intro hmem
  obtain ⟨token, htoken, htext⟩ := List.mem_map.mp hmem
  obtain ⟨t, ht, hstep⟩ := List.mem_filterMap.mp htoken
  exact Step.ofList_ne_lineTerminator (scanLine_coherent ht) hstep htext

/-- Without warnings about literals there are none at all. -/
theorem warnings_not_reported : reading.warnings false = [] := by
  rw [warnings, Run.warnings, List.filterMap_eq_nil_iff]
  intro t ht
  rw [Step.warning?, if_neg (Step.action_ne_error (scanLine_coherent ht))]
  rfl

theorem warnings_no_error (report : Bool) :
    (reading.warnings report).filter (·.isError) = [] := by
  rw [List.filter_eq_nil_iff]
  intro diagnostic hmem
  have hwarns : diagnostic.WarnsOfLiteral := Run.warnsOfLiteral_of_mem_warnings hmem
  simp [Diagnostic.isError, hwarns.severity_eq]

end Reading

namespace Tokenized

/-- Without reports about literals, the reports are the errors among those with them. -/
theorem ofSource_errors (emit added strip : Bool) (source : Source) :
    (ofSource ⟨⟨emit, false⟩, strip⟩ source).diagnostics =
      (ofSource ⟨⟨added, true⟩, strip⟩ source).diagnostics.filter (·.isError) := by
  have hnone : (readings .normal source.logicalLines).flatMap (·.warnings false) = [] := by
    rw [List.flatMap_eq_nil_iff]
    exact fun reading _ => reading.warnings_not_reported
  have herrors : ((readings .normal source.logicalLines).flatMap (·.warnings true)).filter
      (·.isError) = [] := by
    rw [List.filter_flatMap, List.flatMap_eq_nil_iff]
    exact fun reading _ => reading.warnings_no_error true
  rw [ofSource_diagnostics, ofSource_diagnostics, List.filter_append, hnone, herrors]
  split <;> rfl

/-- Two configurations give a source the same tokens in the same order and the same counts of
comments.  The reports do not depend on where line terminators come from, and without reports about
literals they are the errors among those with them.  Before comments are removed each logical
line has one line terminator, behind its tokens. -/
theorem ofSource_switches (config other : Config) (strip : Bool) (source : Source) :
    let lines := readings .normal source.logicalLines
    (ofSource ⟨config, strip⟩ source).tokens.texts =
        (ofSource ⟨other, strip⟩ source).tokens.texts ∧
      (ofSource ⟨config, strip⟩ source).comments = (ofSource ⟨other, strip⟩ source).comments ∧
      (ofSource ⟨config, strip⟩ source).diagnostics =
        (ofSource ⟨⟨other.emitLineTerminator, config.reportUnterminated⟩, strip⟩
          source).diagnostics ∧
      (ofSource ⟨⟨config.emitLineTerminator, false⟩, strip⟩ source).diagnostics =
        (ofSource ⟨⟨other.emitLineTerminator, true⟩, strip⟩ source).diagnostics.filter
          (·.isError) ∧
      lines.map Reading.line = source.logicalLines ∧
      (ofSource ⟨config, false⟩ source).tokens.texts =
        lines.flatMap (fun line => line.tokenTexts ++ [lineTerminator]) ∧
      lineTerminator ∉ lines.flatMap Reading.tokenTexts := by
  intro lines
  obtain ⟨htexts, hcomments⟩ := ofSource_texts ⟨config, strip⟩ source
  obtain ⟨hsameTexts, hsameComments⟩ := ofSource_texts ⟨other, strip⟩ source
  refine ⟨htexts.trans hsameTexts.symm, hcomments.trans hsameComments.symm, ?_,
    ofSource_errors _ _ strip source, ?_, ?_, ?_⟩
  · rw [ofSource_diagnostics, ofSource_diagnostics]
  · exact map_line_readings .normal source.logicalLines
  · rw [(ofSource_texts ⟨config, false⟩ source).1, linesTexts_eq_flatMap]
    rfl
  · intro hmem
    obtain ⟨reading, _, hreading⟩ := List.mem_flatMap.mp hmem
    exact reading.lineTerminator_not_mem_tokenTexts hreading

end Tokenized

end LineLexer
