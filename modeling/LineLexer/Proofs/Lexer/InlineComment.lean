import LineLexer.Proofs.Lexer.Delivery
import LineLexer.Proofs.Scan.InlineComment
/-!
A line with an inline comment.

What a lexer delivers of the comment is its mark and at most one token behind it, whatever stands in
the comment and whatever the lexer has done before.  The comment is over with its line.
-/

namespace LineLexer

namespace Lexer

/-- Where a lexer enters an inline comment, the line is delivered as the tokens before the comment,
its mark and its body: all that follows the mark, without the white space at both ends.  Nothing is
reported for the line, and the lexer is ready for code again. -/
theorem readNumbered_inlineComment (config : Config) (history : List Operation) (number : Nat)
    {line : List Char} {before after : List Step} {t : Step}
    (hsplit : (scanLine ((ofConfig config).after history).mode line).steps = before ++ t :: after)
    (haction : t.action = .startInlineComment) :
    let lexer := (ofConfig config).after history
    let commented := lexer.readNumbered number line
    let front := before.filterMap Step.token?
    let body := after.filterMap Step.token?
    let texts := (front ++ ['/', '/'] :: body).map String.ofList ++
      if config.emitLineTerminator then [lineTerminator] else []
    (∃ code rest, line = code ++ '/' :: '/' :: rest ∧ t.scan.offset = code.length + 1 ∧
      CommentBody rest body) ∧
      commented.tokens.texts = texts ∧ commented.drain.1 = texts ∧
      commented.diagnostics = lexer.diagnostics ∧
      commented.mode = .normal ∧ commented.state = .start ∧
      ∀ (other : Nat) (next : List Char),
        (commented.readNumbered other next).drain.1 = lineTexts config (scanLine .normal next) := by
  intro lexer commented front body texts
  have hworks : lexer.Works config := (works_ofConfig config).after history
  obtain ⟨hbody, htokens, hwarnings, hcarried⟩ := scanLine_inlineComment hsplit haction
  have htexts : lineTexts config (scanLine lexer.mode line) = texts := by
    rw [lineTexts, htokens]
  obtain ⟨hlist, hdrain⟩ := hworks.readNumbered_texts number line
  have hmode : commented.mode = .normal := hcarried
  refine ⟨hbody, hlist.trans htexts, hdrain.trans htexts, ?_, hmode, ?_, ?_⟩
  · change lexer.diagnostics ++ _ = _
    rw [hwarnings, List.append_nil]
  · change commented.mode.startState = .start
    rw [hmode]
    rfl
  · intro other next
    rw [((hworks.readNumbered number line).readNumbered_texts other next).2, hmode]

/-- The line ends a block comment first.  Quotes and marks in the inline comment mean nothing, and
a block comment that is opened in it does not go on with the next line. -/
theorem readNumbered_inlineComment_behind_block :
    let lexer := (ofConfig {}).after [.read ['/', '*']]
    let commented := lexer.readNumbered 2
      ['*', '/', 'y', '/', '/', '\t', '<', '"', ' ', ' ', '/', '/', ' ', '/', '*', '\u3000']
    commented.drain.1 = ["*/", "y", "//", "<\"  // /*"] ∧ commented.diagnostics = [] ∧
      commented.mode = .normal ∧
      (commented.readNumbered 3 ['*', '/', 'z']).drain.1 = ["*", "/", "z"] := by
  intro lexer commented
  let steps := (scanLine lexer.mode
    ['*', '/', 'y', '/', '/', '\t', '<', '"', ' ', ' ', '/', '/', ' ', '/', '*', '\u3000']).steps
  let t : Step := ⟨⟨.normal, .slash, ['/'], 3, 4⟩, .char '/'⟩
  have hsplit : steps = steps.take 5 ++ t :: steps.drop 6 := by decide +kernel
  have haction : t.action = .startInlineComment := by decide
  obtain ⟨_, _, hdrain, hdiagnostics, hmode, _, hnext⟩ :=
    readNumbered_inlineComment {} [.read ['/', '*']] 2 hsplit haction
  refine ⟨hdrain.trans ?_, hdiagnostics.trans ?_, hmode, (hnext 3 ['*', '/', 'z']).trans ?_⟩
  all_goals decide +kernel

end Lexer

end LineLexer
