import LineLexer.Tokenized
import LineLexer.Proofs.Source.Concatenation
/-!
The ways to end a line.

A carriage return before a line feed belongs to the end of the line, and a line feed at the end of
a text begins no line of its own.  So a text without carriage returns has the same physical lines
if every line feed gets one, and if its last line is ended.  All that is found in a source is
found in its physical lines, so it is the same too.
-/

namespace LineLexer

/-- The text with a carriage return before every line feed. -/
def withReturns (text : List Char) : List Char :=
  text.flatMap fun c => if c = '\n' then ['\r', '\n'] else [c]

theorem withReturns_feed (rest : List Char) :
    withReturns ('\n' :: rest) = '\r' :: '\n' :: withReturns rest := by
  rfl

theorem withReturns_cons {c : Char} (hfeed : c ≠ '\n') (rest : List Char) :
    withReturns (c :: rest) = c :: withReturns rest := by
  simp [withReturns, hfeed]

/-- A character that is part of no line end belongs to the first line. -/
theorem physicalLines_cons {c : Char} (hfeed : c ≠ '\n') (hreturn : c ≠ '\r') (rest : List Char) :
    physicalLines (c :: rest) =
      (c :: (physicalLines rest).headD []) :: (physicalLines rest).tail := by
  rw [physicalLines.eq_4 c rest hfeed fun _ hc _ => hreturn hc]
  cases physicalLines rest <;> rfl

/-- A carriage return before every line feed leaves the lines as they are. -/
theorem physicalLines_withReturns {text : List Char} (hreturn : '\r' ∉ text) :
    physicalLines (withReturns text) = physicalLines text := by
  induction text with
  | nil => rfl
  | cons c rest ih =>
      rw [List.mem_cons, not_or] at hreturn
      have hrest := ih hreturn.2
      by_cases hfeed : c = '\n'
      · subst hfeed
        rw [withReturns_feed, physicalLines, physicalLines, hrest]
      · have hc : c ≠ '\r' := fun hc => hreturn.1 hc.symm
        rw [withReturns_cons hfeed, physicalLines_cons hfeed hc, physicalLines_cons hfeed hc, hrest]

/-- A line feed after the last line leaves the lines as they are. -/
theorem physicalLines_append_feed {text : List Char} (hreturn : '\r' ∉ text) (htext : text ≠ [])
    (hlast : text.getLast? ≠ some '\n') :
    physicalLines (text ++ ['\n']) = physicalLines text := by
  induction text with
  | nil => exact absurd rfl htext
  | cons c rest ih =>
      rw [List.mem_cons, not_or] at hreturn
      have hc : c ≠ '\r' := fun hc => hreturn.1 hc.symm
      cases rest with
      | nil =>
          have hfeed : c ≠ '\n' := by simpa using hlast
          rw [List.singleton_append, physicalLines_cons hfeed hc, physicalLines_cons hfeed hc]
          rfl
      | cons d others =>
          rw [List.getLast?_cons_cons] at hlast
          have hrest := ih hreturn.2 (List.cons_ne_nil d others) hlast
          by_cases hfeed : c = '\n'
          · subst hfeed
            rw [List.cons_append, physicalLines, physicalLines, hrest]
          · rw [List.cons_append, physicalLines_cons hfeed hc, physicalLines_cons hfeed hc, hrest]

namespace Source

/-- Sources with the same physical lines have the same logical lines, and nothing else of a source
is looked at. -/
theorem tokenized_of_lines_eq {source other : Source} (hlines : source.lines = other.lines)
    (options : Options) :
    source.logicalLines = other.logicalLines ∧
      Tokenized.ofSource options source = Tokenized.ofSource options other := by
  have hlogical : source.logicalLines = other.logicalLines := by
    rw [logicalLines, logicalLines, hlines]
  refine ⟨hlogical, ?_⟩
  rw [Tokenized.ofSource, Tokenized.ofSource, hlogical]

end Source

namespace Tokenized

/-- A source without carriage returns gives the same logical lines with the same numbers, and the
same tokens, reports and counts, if every line feed gets a carriage return and if a line feed ends
the last line. -/
theorem ofSource_lineEnds (options : Options) (source : Source)
    (hreturn : '\r' ∉ source.text.toList) :
    let returned : Source := ⟨source.name, String.ofList (withReturns source.text.toList)⟩
    let ended : Source := ⟨source.name, source.text ++ "\n"⟩
    (returned.logicalLines = source.logicalLines ∧
        ofSource options returned = ofSource options source) ∧
      (source.text ≠ "" → source.text.toList.getLast? ≠ some '\n' →
        ended.logicalLines = source.logicalLines ∧
          ofSource options ended = ofSource options source) := by
  intro returned ended
  constructor
  · have hlines : returned.lines = source.lines := by
      simp only [returned, Source.lines, String.toList_ofList]
      exact physicalLines_withReturns hreturn
    exact Source.tokenized_of_lines_eq hlines options
  · intro htext hlast
    have hlines : ended.lines = source.lines := by
      simp only [ended, Source.lines, String.toList_append]
      refine physicalLines_append_feed hreturn ?_ hlast
      simpa using htext
    exact Source.tokenized_of_lines_eq hlines options

/-- A continued line, a literal that is cut off and a block comment that is left open. -/
theorem ofSource_lineEnds_open :
    let source : Source := ⟨"a.c", "a\\\nb \"c \n/* d"⟩
    let returned : Source := ⟨"a.c", "a\\\r\nb \"c \r\n/* d"⟩
    let ended : Source := ⟨"a.c", "a\\\nb \"c \n/* d\n"⟩
    '\r' ∉ source.text.toList ∧ source.text ≠ "" ∧ source.text.toList.getLast? ≠ some '\n' ∧
      ofSource {} returned = ofSource {} source ∧ ofSource {} ended = ofSource {} source ∧
      (ofSource {} source).tokens.texts = ["ab", "\"c ", "\n", "/*", "d", "\n"] ∧
      (ofSource {} source).diagnostics = [.openAtLineEnd .stringLiteral ⟨1, 4⟩,
        .ofError (.unterminated .blockComment 3) ⟨3, 1⟩] := by
  intro source returned ended
  have hreturn : '\r' ∉ source.text.toList := by decide
  have htext : source.text ≠ "" := by decide
  have hlast : source.text.toList.getLast? ≠ some '\n' := by decide
  obtain ⟨hreturned, hended⟩ := ofSource_lineEnds {} source hreturn
  have hwritten : returned = ⟨source.name, String.ofList (withReturns source.text.toList)⟩ := by
    decide +kernel
  have hadded : ended = ⟨source.name, source.text ++ "\n"⟩ := by decide +kernel
  refine ⟨hreturn, htext, hlast, ?_, ?_, ?_, ?_⟩
  · rw [hwritten]
    exact hreturned.2
  · rw [hadded]
    exact (hended htext hlast).2
  · decide +kernel
  · decide +kernel

end Tokenized

end LineLexer
