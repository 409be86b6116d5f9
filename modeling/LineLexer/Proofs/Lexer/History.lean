import LineLexer.Proofs.Scan.Resumption
/-!
What a lexer keeps of the lines before.

Between two lines a lexer holds more than its mode: the start of a token that is long gone, the
number of a line, the tokens nobody asked for and the slots of a list that has been used many
times.  Nothing of this shows in the next line.  Two lexers of one configuration that are in the
same mode read a line alike, and whatever is done with both of them afterwards they hand out
the same tokens (`Twins`).
-/

namespace LineLexer

namespace Lexer

/-- The tokens that an operation hands out. -/
def handedOut (lexer : Lexer) : Operation → List String
  | .tokenizeLine text => (lexer.tokenizeLine text).1
  | .pull => lexer.pull.1.toOption.toList
  | .read _ | .readNumbered _ _ | .finish | .takeDiagnostics => []

/-- The tokens that each of some operations hands out, the first operation first. -/
def handedOutBy (lexer : Lexer) : List Operation → List (List String)
  | [] => []
  | operation :: later => lexer.handedOut operation :: (lexer.perform operation).handedOutBy later

/-- Two lexers in the same mode with the same tokens left to be pulled. -/
structure Twins (config : Config) (left right : Lexer) : Prop where
  left_config : left.config = config
  right_config : right.config = config
  mode_eq : left.mode = right.mode
  tapes : ∃ first second : Tape, left.tokens.Represents first ∧ right.tokens.Represents second ∧
    first.unread.map entryText = second.unread.map entryText

variable {config : Config} {left right : Lexer}

/-- Lexers in the same mode have the same tokens left once they have read the same line, under
whatever numbers. -/
theorem twins_readNumbered (hleft : left.Works config) (hright : right.Works config)
    (hmode : left.mode = right.mode) (number other : Nat) (line : List Char) :
    Twins config (left.readNumbered number line) (right.readNumbered other line) := by
  obtain ⟨hleftConfig, _, hleft⟩ := hleft
  obtain ⟨hrightConfig, _, hright⟩ := hright
  obtain ⟨entries, htexts, hfilled⟩ := readNumbered_represents hleft number line
  obtain ⟨others, hsame, hrefilled⟩ := readNumbered_represents hright other line
  refine ⟨hleftConfig, hrightConfig, congrArg (carriedMode · line) hmode, _, _, hfilled,
    hrefilled, ?_⟩
  rw [htexts, hsame, hleftConfig, hrightConfig, hmode]

namespace Twins

variable (htwins : Twins config left right)

include htwins

theorem works_left : left.Works config := by
  obtain ⟨hconfig, _, _, first, _, hfirst, _⟩ := htwins
  exact ⟨hconfig, first, hfirst⟩

theorem works_right : right.Works config := by
  obtain ⟨_, hconfig, _, _, second, _, hsecond, _⟩ := htwins
  exact ⟨hconfig, second, hsecond⟩

theorem pull : left.pull.1 = right.pull.1 ∧ Twins config left.pull.2 right.pull.2 := by
  obtain ⟨hleft, hright, hmode, first, second, hfirst, hsecond, hunread⟩ := htwins
  cases hcase : first.unread with
  | nil =>
      have hother : second.unread = [] := by
        rw [hcase, List.map_nil] at hunread
        exact List.map_eq_nil_iff.mp hunread.symm
      rw [pull_of_read hfirst hcase, pull_of_read hsecond hother]
      exact ⟨rfl, hleft, hright, hmode, first, second, hfirst, hsecond, hunread⟩
  | cons entry unread =>
      rw [hcase, List.map_cons] at hunread
      obtain ⟨other, others, hother, htext, hrest⟩ := List.map_eq_cons_iff.mp hunread.symm
      rw [pull_of_unread hfirst hcase, pull_of_unread hsecond hother]
      refine ⟨congrArg Except.ok htext.symm, hleft, hright, hmode, _, _,
        (hfirst.advance_of_unread hcase).2, (hsecond.advance_of_unread hother).2, hrest.symm⟩

theorem drain : left.drain.1 = right.drain.1 ∧ Twins config left.drain.2 right.drain.2 := by
  obtain ⟨hleft, hright, hmode, first, second, hfirst, hsecond, hunread⟩ := htwins
  obtain ⟨tokens, hdrain, hlast⟩ := drain_eq hfirst
  obtain ⟨others, hother, hrest⟩ := drain_eq hsecond
  rw [hdrain, hother]
  exact ⟨hunread, hleft, hright, hmode, _, _, hlast, hrest, rfl⟩

end Twins

/-- An operation that reads a line makes twins of lexers in the same mode. -/
theorem twins_of_line (hleft : left.Works config) (hright : right.Works config)
    (hmode : left.mode = right.mode) {operation : Operation}
    (hline : operation.line?.isSome = true) :
    left.handedOut operation = right.handedOut operation ∧
      Twins config (left.perform operation) (right.perform operation) := by
  have hread := twins_readNumbered hleft hright hmode
  cases operation with
  | read text => exact ⟨rfl, hread (left.line + 1) (right.line + 1) text⟩
  | readNumbered number text => exact ⟨rfl, hread number number text⟩
  | tokenizeLine text => exact (hread (left.line + 1) (right.line + 1) text).drain
  | pull | finish | takeDiagnostics => cases hline

/-- Twins hand out the same tokens in every operation and are twins after it. -/
theorem Twins.perform (htwins : Twins config left right) (operation : Operation) :
    left.handedOut operation = right.handedOut operation ∧
      Twins config (left.perform operation) (right.perform operation) := by
  cases hline : operation.line?.isSome with
  | true => exact twins_of_line htwins.works_left htwins.works_right htwins.mode_eq hline
  | false =>
      cases operation with
      | read text | readNumbered number text | tokenizeLine text => cases hline
      | pull =>
          obtain ⟨hanswer, hnext⟩ := htwins.pull
          refine ⟨?_, hnext⟩
          rw [handedOut, handedOut, hanswer]
      | finish => exact ⟨rfl, htwins.left_config, htwins.right_config, rfl, htwins.tapes⟩
      | takeDiagnostics =>
          exact ⟨rfl, htwins.left_config, htwins.right_config, htwins.mode_eq, htwins.tapes⟩

theorem Twins.handedOutBy_eq (htwins : Twins config left right) (later : List Operation) :
    left.handedOutBy later = right.handedOutBy later := by
  induction later generalizing left right with
  | nil => rfl
  | cons operation later ih =>
      obtain ⟨htokens, hnext⟩ := htwins.perform operation
      rw [handedOutBy, handedOutBy, htokens, ih hnext]

/-- Whatever has been done with two lexers of one configuration, if they are in the same mode
they read a line alike: they have the same tokens to be pulled and go on to hand out the same
tokens in all later operations, they come to rest in the same mode and state, and they record
the same warnings.  All of it is what a run over the line finds, whatever start of a token the
scan still has from earlier lines.  A lexer whose input has been ended is in the mode of a new one
and hands out the same tokens from its next line on. -/
theorem readNumbered_alike (config : Config) (history : List Operation) :
    let left := (ofConfig config).after history
    (∀ (others : List Operation) (number : Nat) (line : List Char) (start : Nat),
      let right := (ofConfig config).after others
      let first := left.readNumbered number line
      let second := right.readNumbered number line
      let run := (Scan.resume left.mode start).run (lineSymbols line)
      left.mode = right.mode →
        (first.drain.1 = lineTexts config run ∧ second.drain.1 = lineTexts config run) ∧
          (∀ later, first.handedOutBy later = second.handedOutBy later) ∧
          (first.mode = run.last.park.mode ∧ second.mode = run.last.park.mode) ∧
          (first.state = run.last.park.state ∧ second.state = run.last.park.state) ∧
          first.diagnostics =
            left.diagnostics ++ run.warnings config.reportUnterminated number ∧
          second.diagnostics =
            right.diagnostics ++ run.warnings config.reportUnterminated number) ∧
      ∀ (operation : Operation) (later : List Operation), operation.line?.isSome = true →
        left.finish.2.handedOutBy (operation :: later) =
          (ofConfig config).handedOutBy (operation :: later) := by
  intro left
  have hleft : left.Works config := (works_ofConfig config).after history
  constructor
  · intro others number line start right first second run hmode
    have hright : right.Works config := (works_ofConfig config).after others
    have hrun : run.Akin (scanLine left.mode line) := Scan.resume_run_akin left.mode start line
    have htexts : lineTexts config run = lineTexts config (scanLine left.mode line) := by
      rw [lineTexts, lineTexts, hrun.tokens_eq]
    have hpark : run.last.park.mode = carriedMode left.mode line :=
      congrArg Mode.atLineEnd hrun.last.mode_eq
    have hfirst : first.mode = run.last.park.mode := hpark.symm
    have hsecond : second.mode = run.last.park.mode := by
      rw [hpark, hmode]
      rfl
    have hwarnings := hrun.warnings_eq config.reportUnterminated number
    have htwins := twins_readNumbered hleft hright hmode number number line
    refine ⟨⟨?_, ?_⟩, htwins.handedOutBy_eq, ⟨hfirst, hsecond⟩, ⟨?_, ?_⟩, ?_, ?_⟩
    · rw [htexts]
      exact (hleft.readNumbered_texts number line).2
    · rw [htexts, hmode]
      exact (hright.readNumbered_texts number line).2
    · exact congrArg Mode.startState hfirst
    · exact congrArg Mode.startState hsecond
    · rw [hwarnings, ← hleft.1]
      rfl
    · rw [hwarnings, hmode, ← hright.1]
      rfl
  · intro operation later hline
    have hfinished : left.finish.2.Works config := hleft.perform .finish
    obtain ⟨htokens, hnext⟩ :=
      twins_of_line hfinished (works_ofConfig config) rfl hline
    rw [handedOutBy, handedOutBy, htokens, hnext.handedOutBy_eq later]

/-- Inside a block comment that one lexer has entered behind code, with a token of it pulled and
the others not, and another one on a line of its own, after an open literal that was warned
about. -/
theorem readNumbered_alike_blockComment :
    let left := (ofConfig {}).after [.readNumbered 7 ['x', ' ', '/', '*', 'y'], .pull]
    let right := (ofConfig {}).after [.read ['"', 'a'], .takeDiagnostics, .read ['/', '*']]
    let line := ['b', '*', '/', ' ', '"', 'c']
    left.mode = right.mode ∧
      (left.readNumbered 9 line).drain.1 = ["b", "*/", "\"c"] ∧
      (right.readNumbered 9 line).drain.1 = ["b", "*/", "\"c"] ∧
      (left.readNumbered 9 line).diagnostics = [.openAtLineEnd .stringLiteral ⟨9, 5⟩] ∧
      (right.readNumbered 9 line).diagnostics = [.openAtLineEnd .stringLiteral ⟨9, 5⟩] ∧
      Operation.line? (.tokenizeLine line) = some line ∧
      left.finish.2.handedOutBy [.tokenizeLine line] = [["b", "*", "/", "\"c"]] := by
  intro left right line
  have hmode : left.mode = right.mode := by decide +kernel
  obtain ⟨hread, hfinished⟩ :=
    readNumbered_alike {} [.readNumbered 7 ['x', ' ', '/', '*', 'y'], .pull]
  obtain ⟨⟨hleft, hright⟩, _, _, _, hleftReports, hrightReports⟩ :=
    hread [.read ['"', 'a'], .takeDiagnostics, .read ['/', '*']] 9 line 2 hmode
  have hnext := hfinished (.tokenizeLine line) [] rfl
  refine ⟨hmode, hleft.trans ?_, hright.trans ?_, hleftReports.trans ?_, hrightReports.trans ?_,
    rfl, hnext.trans ?_⟩
  all_goals decide +kernel

end Lexer

end LineLexer
