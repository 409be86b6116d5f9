import Mathlib.Data.List.Basic
import Mathlib.Data.List.Induction
import LineLexer.Machine.Transition
/-!
How the transition table reads the characters of one token.

Inside a token the table only stores, so the state of a scan is a function of its mode and
of the classes stored so far.  `State.reading` is that function.  What the table does in each
situation is decided once here, entry by entry over all states and classes; everything that
is proved about scans later argues about words of classes.
-/

namespace LineLexer

instance State.decidableForall {p : State → Prop} [DecidablePred p] :
    Decidable (∀ state, p state) :=
  decidable_of_iff (∀ state ∈ State.all, p state)
    ⟨fun h state => h state state.mem_all, fun h state _ => h state⟩

instance CharClass.decidableForall {p : CharClass → Prop} [DecidablePred p] :
    Decidable (∀ kind, p kind) :=
  decidable_of_iff (∀ kind ∈ CharClass.all, p kind)
    ⟨fun h kind => h kind kind.mem_all, fun h kind _ => h kind⟩

theorem Mode.mem_all (mode : Mode) : mode ∈ Mode.all := by
  cases mode <;> decide

instance Mode.decidableForall {p : Mode → Prop} [DecidablePred p] :
    Decidable (∀ mode, p mode) :=
  decidable_of_iff (∀ mode ∈ Mode.all, p mode)
    ⟨fun h mode => h mode mode.mem_all, fun h mode _ => h mode⟩

/-- The classes that the symbols of a line have in a mode. -/
def Mode.presents : Mode → CharClass → Bool
  | .normal, .angleOpen | .normal, .angleClose | .normal, .commentChar => false
  | .normal, _ => true
  | .includeLiteral, .less | .includeLiteral, .greater
  | .includeLiteral, .commentChar => false
  | .includeLiteral, _ => true
  | .blockComment, .whitespace | .blockComment, .star | .blockComment, .slash
  | .blockComment, .doubleQuote | .blockComment, .backslash
  | .blockComment, .commentChar | .blockComment, .endOfLine => true
  | .blockComment, _ => false
  | .inlineComment, .whitespace | .inlineComment, .commentChar
  | .inlineComment, .endOfLine => true
  | .inlineComment, _ => false

/-- The states a scan can be in while it reads a token of a mode. -/
def Mode.owns : Mode → State → Bool
  | .blockComment, .commentStart | .blockComment, .commentWord
  | .blockComment, .commentStar | .blockComment, .commentString
  | .blockComment, .commentStringEscape => true
  | .blockComment, _ => false
  | .inlineComment, .inlineStart | .inlineComment, .inlineBody => true
  | .inlineComment, _ => false
  | _, .commentStart | _, .commentWord | _, .commentStar | _, .commentString
  | _, .commentStringEscape | _, .inlineStart | _, .inlineBody => false
  | .normal, .angleLiteral => false
  | _, _ => true

theorem Mode.owns_startState (mode : Mode) : mode.owns mode.startState = true := by
  cases mode <;> rfl

section Table

theorem transition_store_not_isStart : ∀ state kind,
    (transition state kind).action = .store →
      (transition state kind).next.isStart = false := by
  decide

theorem transition_endOfLine_not_consumes : ∀ state,
    (transition state .endOfLine).action.consumes = false := by
  decide

/-- Only in a start state is a symbol skipped, and only white space or the line end is. -/
theorem transition_ignore_iff : ∀ state kind,
    (transition state kind).action = .ignore ↔
      state.isStart = true ∧ (kind = .whitespace ∨ kind = .endOfLine) := by
  decide

theorem transition_ne_startInclude : ∀ state kind,
    (transition state kind).action ≠ .startInclude := by
  decide

theorem transition_acceptBack1_not_isStart : ∀ state kind,
    (transition state kind).action = .acceptBack1 →
      state.isStart = false ∧ state.onTrust = false := by
  decide

theorem transition_acceptBack2_onTrust : ∀ state kind,
    (transition state kind).action = .acceptBack2 → state.onTrust = true := by
  decide

/-- A character read on trust never is the first one of its token. -/
theorem transition_start_not_onTrust : ∀ state kind,
    state.isStart = true → (transition state kind).next.onTrust = false := by
  decide

/-- The table has an answer to whatever a mode presents in one of its states. -/
theorem transition_ne_error : ∀ (mode : Mode) (state : State) (kind : CharClass),
    mode.owns state = true → mode.presents kind = true →
      (transition state kind).action ≠ .error := by
  decide

theorem transition_store_owned : ∀ (mode : Mode) (state : State) (kind : CharClass),
    mode.owns state = true → mode.presents kind = true →
      (transition state kind).action = .store → mode.owns (transition state kind).next = true := by
  decide

/-- What ends or skips a token without a change of mode leads back to the start state. -/
theorem transition_next_eq_startState : ∀ (mode : Mode) (state : State) (kind : CharClass),
    mode.owns state = true → mode.presents kind = true →
      (transition state kind).action ≠ .store →
      nextMode mode state (transition state kind).action = mode →
        (transition state kind).next = mode.startState := by
  decide

end Table

/-- The state after characters of the given classes have been added to a token; `none` as
soon as the table does anything else with one of them. -/
def State.reading : State → List CharClass → Option State
  | state, [] => some state
  | state, kind :: rest =>
      if (transition state kind).action = .store then
        (transition state kind).next.reading rest
      else none

theorem State.reading_append (state : State) (first second : List CharClass) :
    state.reading (first ++ second) =
      (state.reading first).bind (·.reading second) := by
  induction first generalizing state with
  | nil => rfl
  | cons kind rest ih =>
      simp only [List.cons_append, State.reading]
      split
      · exact ih _
      · rfl

/-- The last character of a token is stored in the state that the others lead to. -/
theorem State.reading_concat {state last : State} {kinds : List CharClass}
    {kind : CharClass} :
    state.reading (kinds ++ [kind]) = some last ↔
      ∃ middle, state.reading kinds = some middle ∧
        (transition middle kind).action = .store ∧ (transition middle kind).next = last := by
  rw [State.reading_append]
  cases hmiddle : state.reading kinds with
  | none => simp
  | some middle =>
      simp only [Option.bind_some, State.reading, Option.some.injEq, exists_eq_left']
      split <;> rename_i hstore <;> simp [hstore]

/-- Nothing has been read in a start state, and something in every other state. -/
theorem Mode.isStart_of_reading {mode : Mode} {kinds : List CharClass} {state : State}
    (hreading : mode.startState.reading kinds = some state) :
    state.isStart = true ↔ kinds = [] := by
  rcases List.eq_nil_or_concat' kinds with rfl | ⟨front, kind, rfl⟩
  · simp only [State.reading, Option.some.injEq] at hreading
    simp [← hreading, Mode.startState_isStart]
  · obtain ⟨middle, _, hstore, rfl⟩ := State.reading_concat.mp hreading
    simp [transition_store_not_isStart middle kind hstore]

/-- A token does not start with white space. -/
theorem Mode.head_ne_whitespace_of_reading {mode : Mode} {kind : CharClass}
    {rest : List CharClass} {state : State}
    (hreading : mode.startState.reading (kind :: rest) = some state) :
    kind ≠ .whitespace := by
  rintro rfl
  have hskip := (transition_ignore_iff mode.startState .whitespace).mpr
    ⟨mode.startState_isStart, Or.inl rfl⟩
  simp [State.reading, hskip] at hreading

/-- A character read on trust has another one before it. -/
theorem Mode.two_le_length_of_onTrust {mode : Mode} {kinds : List CharClass} {state : State}
    (hreading : mode.startState.reading kinds = some state)
    (htrust : state.onTrust = true) : 2 ≤ kinds.length := by
  match kinds with
  | [] =>
      simp only [State.reading, Option.some.injEq] at hreading
      subst hreading
      cases mode <;> simp [Mode.startState, State.onTrust] at htrust
  | [kind] =>
      rw [← List.nil_append [kind]] at hreading
      obtain ⟨middle, hmiddle, _, rfl⟩ := State.reading_concat.mp hreading
      simp only [State.reading, Option.some.injEq] at hmiddle
      have hnot := transition_start_not_onTrust middle kind
        (by rw [← hmiddle]; exact mode.startState_isStart)
      simp [hnot] at htrust
  | _ :: _ :: _ => simp

/-- A mode owns every state that its tokens lead to. -/
theorem Mode.owns_of_reading {mode : Mode} {kinds : List CharClass} {state : State}
    (hpresents : ∀ kind ∈ kinds, mode.presents kind = true)
    (hreading : mode.startState.reading kinds = some state) :
    mode.owns state = true := by
  induction kinds using List.reverseRecOn generalizing state with
  | nil =>
      simp only [State.reading, Option.some.injEq] at hreading
      rw [← hreading]
      exact mode.owns_startState
  | append_singleton front kind ih =>
      obtain ⟨middle, hmiddle, hstore, rfl⟩ := State.reading_concat.mp hreading
      have howns := ih (fun k hk => hpresents k (List.mem_append_left _ hk)) hmiddle
      exact transition_store_owned mode middle kind howns
        (hpresents kind (by simp)) hstore

end LineLexer
