import LineLexer.Diagnostic
import LineLexer.Machine.Transition
/-!
Scanning one line.

A scan looks at one symbol at a time, a character or the end of the line, and takes the step
the transition table asks for.  A step may leave symbols to be looked at again: the symbol
itself, where it ended the token before it, and the last character of the token too, where
that character was read on trust.  The run of a scan over a line is the list of its steps
together with the scan that is left; the tokens and the warnings of the line are read off
the steps.

The run ends although steps give symbols back, because giving back needs a token to end: a
step that gives one symbol back leads from inside a token to its start, and a step that
gives two back leaves a state that is reached only through other states inside a token.
`Scan.weight` turns this into a measure that every step lowers.
-/

namespace LineLexer

/-- What a scan looks at: a character, or the end of the line. -/
inductive Symbol where
  | char (c : Char)
  | endOfLine
deriving DecidableEq

/-- The class of a symbol in a mode. -/
def Symbol.classify (mode : Mode) : Symbol → CharClass
  | .char c => .classify mode c
  | .endOfLine => .endOfLine

/-- The character of a symbol, if it has one. -/
def Symbol.chars : Symbol → List Char
  | .char c => [c]
  | .endOfLine => []

/-- The symbols of a line: its characters and its end. -/
def lineSymbols (line : List Char) : List Symbol :=
  line.map .char ++ [.endOfLine]

/-- A scan between two steps. -/
structure Scan where
  mode : Mode := .normal
  state : State := .start
  /-- The characters read of the current token, the last one first. -/
  pending : List Char := []
  /-- The offset of the first character of the current token. -/
  start : Nat := 0
  /-- How many symbols of the line have been read. -/
  offset : Nat := 0
deriving DecidableEq

/-- The scan at the front of a line that starts in a mode. -/
def Scan.ofMode (mode : Mode) : Scan :=
  { mode, state := mode.startState }

/-- The scan at rest after a line, with what remains of the mode. -/
def Scan.park (scan : Scan) : Scan :=
  { scan with mode := scan.mode.atLineEnd, state := scan.mode.atLineEnd.startState }

/-- The text read of the current token. -/
def Scan.text (scan : Scan) : List Char :=
  scan.pending.reverse

/-- The literal that a state is inside of. -/
def State.openLiteral? : State → Option Construct
  | .string | .stringEscape => some .stringLiteral
  | .char | .charEscape => some .charLiteral
  | .angleLiteral => some .includeLiteral
  | _ => none

/-- A step of a scan: the scan before it and the symbol it looks at. -/
structure Step where
  scan : Scan
  symbol : Symbol
deriving DecidableEq

namespace Step

/-- The class of the symbol in the mode of the scan. -/
def kind (t : Step) : CharClass :=
  t.symbol.classify t.scan.mode

/-- What the table asks for. -/
def move (t : Step) : Move :=
  step t.scan.state t.kind t.scan.pending

def action (t : Step) : Action :=
  t.move.action

/-- The mode after the step. -/
def mode (t : Step) : Mode :=
  nextMode t.scan.mode t.scan.state t.action

/-- The pending characters once the symbol is added, if the action adds it. -/
def held (t : Step) : List Char :=
  if t.action.consumes then t.symbol.chars ++ t.scan.pending else t.scan.pending

/-- The characters of the token that the step ends, the last one first. -/
def ended (t : Step) : List Char :=
  match t.action with
  | .store | .ignore => []
  | .acceptBack2 => t.held.tail
  | _ => t.held

/-- The token that the step delivers.  The body of an inline comment loses the white space
at its end; an empty text is no token. -/
def token? (t : Step) : Option (List Char) :=
  let text := t.ended.reverse
  let body := if t.scan.mode = .inlineComment then trimRight text else text
  if body.isEmpty then none else some body

/-- The symbols that are looked at again after the step. -/
def unread (t : Step) : List Symbol :=
  match t.action with
  | .acceptBack1 | .startInclude => [t.symbol]
  | .acceptBack2 => (t.scan.pending.take 1).map .char ++ [t.symbol]
  | _ => []

/-- The scan after the step.  A change of mode starts at the front of a token of the new
mode. -/
def after (t : Step) : Scan :=
  { mode := t.mode
    state := if t.mode = t.scan.mode then t.move.next else t.mode.startState
    pending := match t.action with
      | .store => t.held
      | .ignore => t.scan.pending
      | _ => []
    start := if t.scan.pending.isEmpty && !t.held.isEmpty then t.scan.offset else t.scan.start
    offset := t.scan.offset + 1 - t.unread.length }

/-- Whether the step enters a block comment. -/
def opensBlock (t : Step) : Bool :=
  t.mode == .blockComment && t.scan.mode != .blockComment

/-- The literal that the end of the line cuts off in this step. -/
def cutLiteral? (t : Step) : Option Construct :=
  if t.kind = .endOfLine ∧ t.action = .acceptBack1 then t.scan.state.openLiteral? else none

/-- The warning the step gives rise to, on the line with the given number.  Literals that
are cut off are warned about only if `report` is set. -/
def warning? (report : Bool) (line : Nat) (t : Step) : Option Diagnostic :=
  if t.action = .error then
    some (.warning .unexpectedTransition
      ("no transition from " ++ t.scan.state.name ++ " on " ++ t.kind.name)
      ⟨line, t.scan.offset + 1⟩)
  else if report then
    t.cutLiteral?.map fun construct => .openAtLineEnd construct ⟨line, t.scan.start + 1⟩
  else none

end Step

/-- How many symbols an action gives back at most. -/
def Action.givesBack : Action → Nat
  | .acceptBack1 | .startInclude => 1
  | .acceptBack2 => 2
  | _ => 0

/-- What a state adds to the measure of a run: nothing at the start of a token, and more
than a symbol read again where the last character was read on trust. -/
def State.weight (state : State) : Nat :=
  if state.isStart then 0 else if state.onTrust then 4 else 2

private theorem transition_weight_all : ∀ state ∈ State.all, ∀ kind ∈ CharClass.all,
    3 * (transition state kind).action.givesBack + (transition state kind).next.weight <
      3 + state.weight := by
  decide

theorem transition_weight (state : State) (kind : CharClass) :
    3 * (transition state kind).action.givesBack + (transition state kind).next.weight <
      3 + state.weight :=
  transition_weight_all state state.mem_all kind kind.mem_all

theorem step_weight (state : State) (kind : CharClass) (pending : List Char) :
    3 * (step state kind pending).action.givesBack +
        (step state kind pending).next.weight < 3 + state.weight := by
  have htable := transition_weight state kind
  simp only [step]
  split
  · rename_i hinclude
    rw [hinclude.1]
    decide
  · exact htable

theorem Mode.startState_weight (mode : Mode) : mode.startState.weight = 0 := by
  cases mode <;> rfl

theorem Step.length_unread_le (t : Step) : t.unread.length ≤ t.action.givesBack := by
  unfold Step.unread
  split
  · rename_i haction
    simp [haction, Action.givesBack]
  · rename_i haction
    simp [haction, Action.givesBack]
  · rename_i haction
    have htake : (t.scan.pending.take 1).length ≤ 1 := List.length_take_le 1 t.scan.pending
    simp only [haction, Action.givesBack, List.length_append, List.length_map,
      List.length_singleton]
    omega
  · simp

/-- Every step lowers three times the number of symbols to be read plus the weight of the
state. -/
theorem Step.weight_after (t : Step) :
    3 * t.unread.length + t.after.state.weight < 3 + t.scan.state.weight := by
  have hback := t.length_unread_le
  have htable := step_weight t.scan.state t.kind t.scan.pending
  simp only [Step.after]
  split
  · simp only [Step.action, Step.move] at hback ⊢
    omega
  · rw [Mode.startState_weight]
    simp only [Step.action, Step.move] at hback
    omega

/-- The steps of a scan over some symbols, and the scan that is left. -/
structure Run where
  steps : List Step
  last : Scan

/-- Runs a scan until every symbol has been read. -/
def Scan.run (scan : Scan) : List Symbol → Run
  | [] => ⟨[], scan⟩
  | symbol :: rest =>
      let t : Step := ⟨scan, symbol⟩
      let later := t.after.run (t.unread ++ rest)
      ⟨t :: later.steps, later.last⟩
termination_by symbols => 3 * symbols.length + scan.state.weight
decreasing_by
  have := Step.weight_after ⟨scan, symbol⟩
  simp only [List.length_append, List.length_cons]
  simp only at this
  omega

/-- The run over one line that starts in the given mode. -/
def scanLine (mode : Mode) (line : List Char) : Run :=
  (Scan.ofMode mode).run (lineSymbols line)

namespace Run

/-- The tokens of a run, in the order of the line. -/
def tokens (run : Run) : List (List Char) :=
  run.steps.filterMap Step.token?

/-- The warnings of a run over the line with the given number. -/
def warnings (report : Bool) (line : Nat) (run : Run) : List Diagnostic :=
  run.steps.filterMap (Step.warning? report line)

/-- Whether a block comment is entered in the run. -/
def opensBlock (run : Run) : Bool :=
  run.steps.any Step.opensBlock

end Run

end LineLexer
