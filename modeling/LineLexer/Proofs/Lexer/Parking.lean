import LineLexer.Proofs.Lexer.Delivery
/-!
A lexer parks between lines.

Whatever is done with a lexer, it comes to rest in a mode that outlasts lines, in the start
state of this mode and with nothing pending.  On the way there every scan keeps its state
within its mode, so that the table always has an answer and the only thing there is to report
is a literal that the end of its line cuts off.
-/

namespace LineLexer

/-- The states of block comments. -/
def State.isOfBlockComment : State → Bool
  | .commentStart | .commentWord | .commentStar | .commentString | .commentStringEscape => true
  | _ => false

/-- The states of inline comments. -/
def State.isOfInlineComment : State → Bool
  | .inlineStart | .inlineBody => true
  | _ => false

/-- The state of a scan is one of its mode.  The states that are of no comment are those of
the two modes of code. -/
structure Scan.StateInMode (scan : Scan) : Prop where
  blockComment_iff : scan.state.isOfBlockComment = true ↔ scan.mode = .blockComment
  inlineComment_iff : scan.state.isOfInlineComment = true ↔ scan.mode = .inlineComment

theorem Mode.isOfComment_of_owns : ∀ mode state, Mode.owns mode state = true →
    (state.isOfBlockComment = true ↔ mode = .blockComment) ∧
      (state.isOfInlineComment = true ↔ mode = .inlineComment) := by
  decide

theorem Scan.Coherent.stateInMode {scan : Scan} (hcoherent : scan.Coherent) :
    scan.StateInMode := by
  obtain ⟨hblock, hinline⟩ :=
    Mode.isOfComment_of_owns scan.mode scan.state hcoherent.owns_state
  exact ⟨hblock, hinline⟩

/-- The diagnostic warns about a literal that the end of its line leaves open. -/
structure Diagnostic.WarnsOfLiteral (diagnostic : Diagnostic) : Prop where
  severity_eq : diagnostic.severity = .warning
  code_mem : diagnostic.code ∈
    [Code.unterminatedString, Code.unterminatedChar, Code.unterminatedInclude]

theorem State.code_openLiteral? {state : State} {construct : Construct}
    (hopen : state.openLiteral? = some construct) :
    construct.code ∈ [Code.unterminatedString, Code.unterminatedChar,
      Code.unterminatedInclude] := by
  cases state <;> cases hopen <;> decide

/-- A step of a coherent scan warns of nothing but literals. -/
theorem Step.warnsOfLiteral_of_warning? {t : Step} {report : Bool} {line : Nat}
    {diagnostic : Diagnostic} (hcoherent : t.scan.Coherent)
    (hwarning : t.warning? report line = some diagnostic) : diagnostic.WarnsOfLiteral := by
  rw [Step.warning?, if_neg (Step.action_ne_error hcoherent)] at hwarning
  split at hwarning
  · obtain ⟨construct, hcut, rfl⟩ := Option.map_eq_some_iff.mp hwarning
    refine ⟨rfl, ?_⟩
    rw [Step.cutLiteral?] at hcut
    split at hcut
    · exact State.code_openLiteral? hcut
    · cases hcut
  · cases hwarning

theorem Run.warnsOfLiteral_of_mem_warnings {mode : Mode} {line : List Char} {report : Bool}
    {number : Nat} {diagnostic : Diagnostic}
    (hmem : diagnostic ∈ (scanLine mode line).warnings report number) :
    diagnostic.WarnsOfLiteral := by
  obtain ⟨t, ht, hwarning⟩ := List.mem_filterMap.mp hmem
  exact Step.warnsOfLiteral_of_warning? (scanLine_coherent ht) hwarning

/-- A scan at rest between two lines. -/
structure Scan.Parked (scan : Scan) : Prop where
  mode_eq : scan.mode = .normal ∨ scan.mode = .blockComment
  state_eq : scan.state = scan.mode.startState
  pending_eq : scan.pending = []

theorem Mode.atLineEnd_outlasts (mode : Mode) :
    mode.atLineEnd = .normal ∨ mode.atLineEnd = .blockComment := by
  cases mode <;> decide

theorem scanLine_parked (mode : Mode) (line : List Char) :
    (scanLine mode line).last.park.Parked where
  mode_eq := (scanLine mode line).last.mode.atLineEnd_outlasts
  state_eq := rfl
  pending_eq := (scanLine_last_within mode line).pending_eq_nil

namespace Lexer

/-- The line that an operation reads. -/
def Operation.line? : Operation → Option (List Char)
  | .read text | .readNumbered _ text | .tokenizeLine text => some text
  | .pull | .finish | .takeDiagnostics => none

/-- The steps that an operation takes. -/
def stepsOf (lexer : Lexer) (operation : Operation) : List Step :=
  match operation.line? with
  | some line => (scanLine lexer.mode line).steps
  | none => []

/-- The steps that are taken in a history. -/
def stepsIn (lexer : Lexer) : List Operation → List Step
  | [] => []
  | operation :: later => lexer.stepsOf operation ++ (lexer.perform operation).stepsIn later

variable {lexer : Lexer}

/-- Pulling changes the tokens only. -/
theorem pullMany_frame (count : Nat) (lexer : Lexer) :
    ∃ tokens, (pullMany count lexer).2 = { lexer with tokens } := by
  induction count generalizing lexer with
  | zero => exact ⟨lexer.tokens, rfl⟩
  | succ count ih =>
      obtain ⟨tokens, hlater⟩ := ih lexer.pull.2
      unfold pullMany
      split
      · rename_i text next hpull
        rw [hpull] at hlater
        refine ⟨tokens, hlater.trans ?_⟩
        have hnext : next = lexer.pull.2 := by rw [hpull]
        rw [hnext]
        rfl
      · rename_i error next hpull
        have hnext : next = lexer.pull.2 := by rw [hpull]
        exact ⟨lexer.tokens.advance.2, hnext⟩

/-- An operation that reads a line changes nothing else than reading it does, apart from the
tokens. -/
theorem perform_of_line (lexer : Lexer) {operation : Operation} {line : List Char}
    (hline : operation.line? = some line) :
    ∃ number tokens, lexer.perform operation = { lexer.readNumbered number line with tokens } := by
  cases operation with
  | read text =>
      obtain rfl := Option.some.inj hline
      exact ⟨lexer.line + 1, _, rfl⟩
  | readNumbered number text =>
      obtain rfl := Option.some.inj hline
      exact ⟨number, _, rfl⟩
  | tokenizeLine text =>
      obtain rfl := Option.some.inj hline
      obtain ⟨tokens, hdrained⟩ := pullMany_frame (lexer.read text).tokens.size (lexer.read text)
      exact ⟨lexer.line + 1, tokens, hdrained⟩
  | pull | finish | takeDiagnostics => cases hline

/-- The lexer is at rest and has nothing to report but literals. -/
structure Settled (lexer : Lexer) : Prop where
  parked : lexer.scan.Parked
  warnsOfLiteral : ∀ diagnostic ∈ lexer.diagnostics, diagnostic.WarnsOfLiteral

theorem settled_ofConfig (config : Config) : (ofConfig config).Settled where
  parked := ⟨Or.inl rfl, rfl, rfl⟩
  warnsOfLiteral diagnostic hmem := by cases hmem

theorem Settled.perform (hsettled : lexer.Settled) (operation : Operation) :
    (lexer.perform operation).Settled := by
  cases hline : operation.line? with
  | some line =>
      obtain ⟨number, tokens, hperform⟩ := perform_of_line lexer hline
      rw [hperform]
      refine ⟨scanLine_parked lexer.mode line, ?_⟩
      intro diagnostic hmem
      rcases List.mem_append.mp hmem with hold | hnew
      · exact hsettled.warnsOfLiteral diagnostic hold
      · exact Run.warnsOfLiteral_of_mem_warnings hnew
  | none =>
      cases operation with
      | read text | readNumbered number text | tokenizeLine text => cases hline
      | pull => exact ⟨hsettled.parked, hsettled.warnsOfLiteral⟩
      | finish =>
          exact ⟨⟨Or.inl rfl, rfl, hsettled.parked.pending_eq⟩, hsettled.warnsOfLiteral⟩
      | takeDiagnostics =>
          refine ⟨hsettled.parked, ?_⟩
          intro diagnostic hmem
          cases hmem

theorem Settled.after (hsettled : lexer.Settled) (history : List Operation) :
    (lexer.after history).Settled := by
  induction history generalizing lexer with
  | nil => exact hsettled
  | cons operation later ih => exact ih (hsettled.perform operation)

theorem coherent_of_mem_stepsIn {history : List Operation} {t : Step}
    (hmem : t ∈ lexer.stepsIn history) : t.scan.Coherent := by
  induction history generalizing lexer with
  | nil => cases hmem
  | cons operation later ih =>
      rcases List.mem_append.mp hmem with hfirst | hlater
      · unfold stepsOf at hfirst
        split at hfirst
        · exact scanLine_coherent hfirst
        · cases hfirst
      · exact ih hlater

/-- Whatever has been done with a lexer, every step of its scans found an answer in the table
and was taken in a state of its mode, every diagnostic is a warning about a literal, and the
lexer rests in the start state of a mode that outlasts lines with nothing pending. -/
theorem after_settled (config : Config) (history : List Operation) :
    (∀ t ∈ (ofConfig config).stepsIn history, t.action ≠ .error ∧ t.scan.StateInMode) ∧
      ((ofConfig config).after history).Settled := by
  constructor
  · intro t hmem
    have hcoherent := coherent_of_mem_stepsIn hmem
    exact ⟨Step.action_ne_error hcoherent, hcoherent.stateInMode⟩
  · exact (settled_ofConfig config).after history

end Lexer

end LineLexer
