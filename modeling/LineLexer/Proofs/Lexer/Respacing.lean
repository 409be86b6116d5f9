import LineLexer.Proofs.Lexer.Delivery
import LineLexer.Proofs.Scan.Respacing
/-!
The tokens of a line, joined with spaces, are read again.

How a lexer reads a line depends on nothing but the mode that the lines before have left.  So
the joined tokens may be given to any lexer that is in the mode the first one was in.
-/

namespace LineLexer

theorem toList_intercalate_ofList (tokens : List (List Char)) :
    (" ".intercalate (tokens.map String.ofList)).toList = spaced tokens := by
  rw [String.toList_intercalate, List.map_map, spaced]
  congr 1
  simp

namespace Lexer

theorem lineTexts_of_no_terminator (report : Bool) (run : Run) :
    lineTexts ⟨false, report⟩ run = run.tokens.map String.ofList := by
  simp [lineTexts]

theorem readNumbered_mode (lexer : Lexer) (number : Nat) (text : List Char) :
    (lexer.readNumbered number text).mode = (scanLine lexer.mode text).last.mode.atLineEnd :=
  rfl

/-- Without line terminators the tokens that are pulled from a line, joined with one space
between neighbours, are read as the same tokens by every lexer in the mode that the line was
read in, and the same mode is left. -/
theorem readNumbered_intercalate (report : Bool) (history others : List Operation)
    (number again : Nat) (line : List Char)
    (hmode : ((ofConfig ⟨false, report⟩).after others).mode =
      ((ofConfig ⟨false, report⟩).after history).mode) :
    let first := ((ofConfig ⟨false, report⟩).after history).readNumbered number line
    let texts := first.drain.1
    let second := ((ofConfig ⟨false, report⟩).after others).readNumbered again
      (" ".intercalate texts).toList
    first.tokens.texts = texts ∧ second.tokens.texts = texts ∧ second.drain.1 = texts ∧
      second.mode = first.mode := by
  have hfirst := (works_ofConfig ⟨false, report⟩).after history
  have hsecond := (works_ofConfig ⟨false, report⟩).after others
  dsimp only
  -- Both lines are read in one mode, so that their scans can be compared.
  generalize hstart : ((ofConfig ⟨false, report⟩).after history).mode = mode at hmode
  obtain ⟨hlist, hdrain⟩ := hfirst.readNumbered_texts number line
  obtain ⟨hagain, hpulled⟩ := hsecond.readNumbered_texts again (spaced (scanLine mode line).tokens)
  obtain ⟨htokens, hlast⟩ := scanLine_spaced mode line
  rw [hstart, lineTexts_of_no_terminator] at hlist hdrain
  rw [hmode, lineTexts_of_no_terminator, htokens] at hagain hpulled
  rw [hdrain, toList_intercalate_ofList]
  refine ⟨hlist, hagain, hpulled, ?_⟩
  rw [readNumbered_mode, readNumbered_mode, hmode, hstart, hlast]

/-- Inside a block comment, whether it was opened alone on its line or after code. -/
theorem readNumbered_intercalate_blockComment :
    ((ofConfig ⟨false, true⟩).after [.readNumbered 9 ['x', '/', '*', 'y']]).mode =
        ((ofConfig ⟨false, true⟩).after [.read ['/', '*']]).mode ∧
      let first := ((ofConfig ⟨false, true⟩).after [.read ['/', '*']]).readNumbered 2
        ['a', '*', '/', '1', '\'', '\'', '"', 'b']
      let texts := first.drain.1
      let second := ((ofConfig ⟨false, true⟩).after
        [.readNumbered 9 ['x', '/', '*', 'y']]).readNumbered 10 (" ".intercalate texts).toList
      first.tokens.texts = texts ∧ second.tokens.texts = texts ∧ second.drain.1 = texts ∧
        second.mode = first.mode := by
  have hmode : ((ofConfig ⟨false, true⟩).after [.readNumbered 9 ['x', '/', '*', 'y']]).mode =
      ((ofConfig ⟨false, true⟩).after [.read ['/', '*']]).mode := by
    decide +kernel
  exact ⟨hmode, readNumbered_intercalate true [.read ['/', '*']]
    [.readNumbered 9 ['x', '/', '*', 'y']] 2 10 ['a', '*', '/', '1', '\'', '\'', '"', 'b'] hmode⟩

end Lexer

end LineLexer
