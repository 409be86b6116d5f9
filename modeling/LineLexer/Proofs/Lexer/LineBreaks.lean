import LineLexer.Proofs.Lexer.Delivery
import LineLexer.Proofs.Scan.LineBreaks
/-!
Two lines that are read as one.

Between two lines a lexer parks its scan and starts a new one.  Behind a line that leaves nothing
open this is what the running scan comes to by itself at a blank: it stands at the front of a token,
in the mode in which the lexer parks.
-/

namespace LineLexer

namespace Lexer

/-- If a line ends outside of quotes and leaves no inline comment or include directive open, it may
be read together with the next one, with a blank between them: the same tokens are delivered, the
same mode is left, and the second line gives rise to the same reports, placed behind the first line
and the blank.  The first line has nothing to report. -/
theorem readNumbered_lineBreak (config : Config) (history : List Operation) (number other : Nat)
    {front back : List Char} {c : Char} (hblank : isBlank c = true)
    (hends : ∀ t ∈ (scanLine ((ofConfig config).after history).mode front).steps,
      t.symbol = .endOfLine → t.scan.state.isQuoted = false)
    (hlast : (scanLine ((ofConfig config).after history).mode front).last.mode = .normal ∨
      (scanLine ((ofConfig config).after history).mode front).last.mode = .blockComment) :
    let lexer := (ofConfig config).after history
    let first := lexer.readNumbered number front
    let second := first.readNumbered other back
    let joined := lexer.readNumbered number (front ++ c :: back)
    let texts := (scanLine lexer.mode front).tokens.map String.ofList
    let terminators := if config.emitLineTerminator then [lineTerminator] else []
    first.drain.1 = texts ++ terminators ∧ joined.drain.1 = texts ++ second.drain.1 ∧
      joined.mode = second.mode ∧
      ∃ reports, first.diagnostics = lexer.diagnostics ∧
        second.diagnostics = first.diagnostics ++ reports ∧
        joined.diagnostics =
          first.diagnostics ++ reports.map (Diagnostic.moved number (front.length + 1)) := by
  intro lexer first second joined texts terminators
  have hworks : lexer.Works config := (works_ofConfig config).after history
  obtain ⟨htokens, hmode, hwarnings⟩ := scanLine_lineBreak hblank hends hlast back
  have hfirst : first.drain.1 = texts ++ terminators := (hworks.readNumbered_texts number front).2
  have hsecond : second.drain.1 = lineTexts config (scanLine (carriedMode lexer.mode front) back) :=
    ((hworks.readNumbered number front).readNumbered_texts other back).2
  have hjoined : joined.drain.1 = lineTexts config (scanLine lexer.mode (front ++ c :: back)) :=
    (hworks.readNumbered_texts number _).2
  refine ⟨hfirst, ?_, ?_, ?_⟩
  · rw [hjoined, hsecond, lineTexts, htokens, List.map_append, List.append_assoc]
    rfl
  · exact congrArg Mode.atLineEnd hmode
  · obtain ⟨hnone, hmoved⟩ := hwarnings lexer.config.reportUnterminated number other
    have hreports : first.diagnostics = lexer.diagnostics := by
      change lexer.diagnostics ++ _ = _
      rw [hnone, List.append_nil]
    refine ⟨(scanLine (carriedMode lexer.mode front) back).warnings _ other, hreports, rfl, ?_⟩
    rw [hreports]
    exact congrArg (lexer.diagnostics ++ ·) hmoved

/-- The first line stays in a block comment and ends with a star, which is no closing mark together
with the slash of the second line; the second line leaves a literal open behind the comment. -/
theorem readNumbered_lineBreak_blockComment :
    let lexer := (ofConfig {}).after [.read ['/', '*']]
    let front := ['a', ' ', '*']
    let back := ['/', '*', '/', '1', 'e', '+', '"', 'x']
    let second := (lexer.readNumbered 2 front).readNumbered 3 back
    let joined := lexer.readNumbered 2 (front ++ '\t' :: back)
    joined.drain.1 = ["a", "*", "/", "*/", "1e", "+", "\"x"] ∧ joined.mode = second.mode ∧
      second.diagnostics = [.openAtLineEnd .stringLiteral ⟨3, 7⟩] ∧
      joined.diagnostics = [.openAtLineEnd .stringLiteral ⟨2, 11⟩] := by
  intro lexer front back second joined
  have hblank : isBlank '\t' = true := by decide
  have hends : ∀ t ∈ (scanLine lexer.mode front).steps,
      t.symbol = .endOfLine → t.scan.state.isQuoted = false := by
    decide +kernel
  have hlast : (scanLine lexer.mode front).last.mode = .blockComment := by decide +kernel
  obtain ⟨_, hjoined, hmode, reports, hfirst, hsecond, hmoved⟩ :=
    readNumbered_lineBreak {} [.read ['/', '*']] 2 3 hblank hends (Or.inr hlast)
  have hreports : second.diagnostics = [.openAtLineEnd .stringLiteral ⟨3, 7⟩] := by decide +kernel
  have hnone : lexer.diagnostics = [] := by decide +kernel
  rw [hfirst, hnone, List.nil_append] at hsecond hmoved
  obtain rfl : reports = [.openAtLineEnd .stringLiteral ⟨3, 7⟩] := hsecond.symm.trans hreports
  refine ⟨hjoined.trans ?_, hmode, hreports, hmoved⟩
  decide +kernel

end Lexer

end LineLexer
