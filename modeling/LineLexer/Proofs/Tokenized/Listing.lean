import LineLexer.Proofs.Source.Continuation
import LineLexer.Proofs.TokenList.Listing
import LineLexer.Proofs.Tokenized.CommentRemoval
/-!
The listing of an output.

No line of a source has a line feed in it.  What a scan delivers of a line are characters of the
line, whatever state it is in, and removing comments takes away whole tokens.  So the line feeds
among the tokens are the line terminators, and the listing has a row for each token.
-/

namespace LineLexer

/-- The line feeds among the texts of lines are the terminators. -/
theorem terminatorOrInLine_linesTexts (mode : Mode) {lines : List LogicalLine}
    (hlines : ∀ line ∈ lines, '\n' ∉ line.text) :
    ∀ text ∈ linesTexts mode lines, TerminatorOrInLine text := by
  induction lines generalizing mode with
  | nil => simp [linesTexts]
  | cons line rest ih =>
      obtain ⟨hline, hrest⟩ := List.forall_mem_cons.mp hlines
      intro text htext
      rw [linesTexts, lineTextsWithEnd, List.mem_append, List.mem_append,
        List.mem_singleton] at htext
      rcases htext with (htoken | hterminator) | hlater
      · obtain ⟨token, hmem, rfl⟩ := List.mem_map.mp htoken
        refine Or.inr fun hfeed => hline ?_
        rw [String.toList_ofList] at hfeed
        exact (scanLine_tokens_woven mode line.text).mem hmem hfeed
      · exact Or.inl hterminator
      · exact ih _ hrest text hlater

namespace Tokenized

/-- The list of an output keeps the number of its tokens. -/
theorem size_ofSource (options : Options) (source : Source) :
    (ofSource options source).tokens.size = (ofSource options source).tokens.texts.length := by
  obtain ⟨config, removes⟩ := options
  obtain ⟨entries, hholds, _⟩ := readLines_texts config source.logicalLines
  cases removes with
  | false =>
      change (readLines config source.logicalLines).2.size =
        (readLines config source.logicalLines).2.texts.length
      rw [hholds.size_eq, TokenList.texts_eq hholds, List.length_map]
  | true =>
      have hkept := hholds.removeComments CommentKind.both
      change ((readLines config source.logicalLines).2.removeComments CommentKind.both).2.size =
        ((readLines config source.logicalLines).2.removeComments CommentKind.both).2.texts.length
      rw [hkept.size_eq, TokenList.texts_eq hkept, List.length_map]

/-- A token of an output is a line terminator or stands within a line. -/
theorem terminatorOrInLine_ofSource (options : Options) (source : Source) :
    ∀ text ∈ (ofSource options source).tokens.texts, TerminatorOrInLine text := by
  intro text htext
  rw [(ofSource_texts options source).1] at htext
  apply terminatorOrInLine_linesTexts .normal source.feed_not_mem_logicalLines
  split at htext
  · exact CommentKind.mem_of_mem_survivors htext
  · exact htext

/-- Whatever the source and the options, a token of an output is a line terminator or has no line
feed in it.  Cut at its line feeds, the listing of the tokens has a row for each of them, with its
number and its text, and a row with the size of the list, and nothing behind it. -/
theorem listing_ofSource (options : Options) (source : Source) :
    let tokens := (ofSource options source).tokens
    (∀ text ∈ tokens.texts, text = "\n" ∨ '\n' ∉ text.toList) ∧
      ∃ rows : List String, tokens.listing.toList.splitOn '\n' = rows.map String.toList ++ [[]] ∧
        rows.length = tokens.size + 1 ∧ tokens.texts.length = tokens.size ∧
        (∀ (index : Nat) (text : String), tokens.texts[index]? = some text →
          rows[index]? = some ("Token " ++ toString (index + 1) ++ ": " ++
            if text = "\n" then "\\n" else text)) ∧
        rows[tokens.size]? = some ("Number of tokens processed: " ++ toString tokens.size) := by
  intro tokens
  have htexts : ∀ text ∈ tokens.texts, TerminatorOrInLine text :=
    terminatorOrInLine_ofSource options source
  have hsize : tokens.size = tokens.texts.length := size_ofSource options source
  obtain ⟨rows, hrows, hlisting⟩ := TokenList.splitOn_listing htexts
  rw [hsize]
  exact ⟨htexts, rows, hlisting, hrows.length_eq, rfl, hrows.row_eq, hrows.last_eq⟩

/-- A cut-off literal, a comment and a continued line stay in their rows. -/
example :
    (ofText {} "\"a\\n /*\\\n* b\n\n").tokens.listing =
      "Token 1: \"a\\n /** b\nToken 2: \\n\nToken 3: \\n\nNumber of tokens processed: 3\n" := by
  decide +kernel

end Tokenized

end LineLexer
