import LineLexer.Scan
import LineLexer.Proofs.Machine.Classify
/-!
The scans that occur in runs.

A scan is coherent if its state is the one that the characters of its token lead to from the
start state of its mode.  The scan at the front of a line is coherent and every step keeps
coherence, so in a run state, mode and pending characters never drift apart.  `Step.shape`
lists the five things that a step of a coherent scan can do; what is proved about steps
later goes through these five cases.
-/

namespace LineLexer

/-- The classes of the characters read of the current token. -/
def Scan.kinds (scan : Scan) : List CharClass :=
  scan.text.map (CharClass.classify scan.mode)

/-- The state of the scan is the one that the characters of its token lead to. -/
def Scan.Coherent (scan : Scan) : Prop :=
  scan.mode.startState.reading scan.kinds = some scan.state

theorem Scan.coherent_ofMode (mode : Mode) : (Scan.ofMode mode).Coherent := by
  rfl

theorem Scan.text_eq_nil_iff {scan : Scan} : scan.text = [] ↔ scan.pending = [] := by
  simp [Scan.text]

namespace Scan.Coherent

variable {scan : Scan} (hcoherent : scan.Coherent)

include hcoherent

theorem isStart_iff : scan.state.isStart = true ↔ scan.pending = [] := by
  rw [Mode.isStart_of_reading hcoherent, Scan.kinds, List.map_eq_nil_iff,
    Scan.text_eq_nil_iff]

theorem state_eq_startState (hpending : scan.pending = []) :
    scan.state = scan.mode.startState := by
  have hkinds : scan.kinds = [] := by simp [Scan.kinds, Scan.text, hpending]
  rw [Scan.Coherent, hkinds] at hcoherent
  exact (Option.some.inj hcoherent).symm

theorem owns_state : scan.mode.owns scan.state = true :=
  Mode.owns_of_reading (CharClass.presents_of_mem_map scan.mode scan.text) hcoherent

/-- A token does not start with white space. -/
theorem not_isBlank_of_text {c : Char} {rest : List Char} (htext : scan.text = c :: rest) :
    isBlank c = false := by
  rw [Scan.Coherent, Scan.kinds, htext, List.map_cons] at hcoherent
  have hhead := Mode.head_ne_whitespace_of_reading hcoherent
  rw [Ne, CharClass.classify_eq_whitespace_iff] at hhead
  exact Bool.eq_false_iff.mpr hhead

theorem two_le_length_pending (htrust : scan.state.onTrust = true) :
    2 ≤ scan.pending.length := by
  have hlength := Mode.two_le_length_of_onTrust hcoherent htrust
  simpa [Scan.kinds, Scan.text] using hlength

end Scan.Coherent

namespace Step

theorem presents_kind (t : Step) : t.scan.mode.presents t.kind = true := by
  unfold Step.kind Symbol.classify
  split
  · exact CharClass.presents_classify _ _
  · cases t.scan.mode <;> rfl

theorem isBlank_of_kind {t : Step} (hkind : t.kind = .whitespace ∨ t.kind = .endOfLine)
    {c : Char} (hsymbol : t.symbol = .char c) : isBlank c = true := by
  simp only [Step.kind, hsymbol, Symbol.classify] at hkind
  rcases hkind with hkind | hkind
  · exact CharClass.classify_eq_whitespace_iff.mp hkind
  · exact absurd hkind (CharClass.classify_ne_endOfLine _ c)

/-- The move is the entry of the table, except where a directive starts an include. -/
theorem move_cases (t : Step) :
    t.move = transition t.scan.state t.kind ∨
      (t.move = ⟨.start, .startInclude⟩ ∧ t.scan.state = .directive ∧
        (transition t.scan.state t.kind).action = .acceptBack1) := by
  unfold Step.move step
  dsimp only
  split
  · rename_i hinclude
    exact Or.inr ⟨rfl, hinclude.1, hinclude.2.1⟩
  · exact Or.inl rfl

theorem move_eq_transition {t : Step} (haction : t.action ≠ .startInclude) :
    t.move = transition t.scan.state t.kind := by
  rcases t.move_cases with htable | ⟨hinclude, _⟩
  · exact htable
  · exact absurd (congrArg Move.action hinclude) haction

theorem move_of_startInclude {t : Step} (haction : t.action = .startInclude) :
    t.move = ⟨.start, .startInclude⟩ ∧ t.scan.state = .directive ∧
      (transition t.scan.state t.kind).action = .acceptBack1 := by
  rcases t.move_cases with htable | hinclude
  · refine absurd ?_ (transition_ne_startInclude t.scan.state t.kind)
    rw [← htable]
    exact haction
  · exact hinclude

theorem transition_action {t : Step} (haction : t.action ≠ .startInclude) :
    (transition t.scan.state t.kind).action = t.action := by
  rw [← move_eq_transition haction]
  rfl

theorem ne_startInclude_of_consumes {t : Step} (hconsumes : t.action.consumes = true) :
    t.action ≠ .startInclude := by
  intro haction
  rw [haction] at hconsumes
  cases hconsumes

/-- Only characters are added to tokens. -/
theorem exists_char_of_consumes {t : Step} (hconsumes : t.action.consumes = true) :
    ∃ c, t.symbol = .char c := by
  cases hsymbol : t.symbol with
  | char c => exact ⟨c, rfl⟩
  | endOfLine =>
      have htable := transition_endOfLine_not_consumes t.scan.state
      have hkind : t.kind = .endOfLine := by simp [Step.kind, hsymbol, Symbol.classify]
      rw [← hkind, transition_action (ne_startInclude_of_consumes hconsumes), hconsumes] at htable
      cases htable

/-- What a step of a coherent scan can do. -/
inductive Shape (t : Step) : Prop
  /-- The symbol is a character of the token that is being read. -/
  | stores (c : Char) (hsymbol : t.symbol = .char c) (haction : t.action = .store)
  /-- The symbol stands between two tokens. -/
  | skips (haction : t.action = .ignore) (hpending : t.scan.pending = [])
      (hblank : ∀ c, t.symbol = .char c → isBlank c = true)
  /-- The symbol is the last character of its token. -/
  | completes (c : Char) (hsymbol : t.symbol = .char c)
      (hconsumes : t.action.consumes = true) (hstore : t.action ≠ .store)
  /-- The token ends before the symbol. -/
  | givesBack (haction : t.action = .acceptBack1 ∨ t.action = .startInclude)
      (hpending : t.scan.pending ≠ [])
  /-- The token ends one character before the symbol. -/
  | givesBackTwo (haction : t.action = .acceptBack2) (last first : Char)
      (rest : List Char) (hpending : t.scan.pending = last :: first :: rest)

theorem action_ne_error {t : Step} (hcoherent : t.scan.Coherent) : t.action ≠ .error := by
  intro herror
  have hne : t.action ≠ .startInclude := by simp [herror]
  apply transition_ne_error t.scan.mode t.scan.state t.kind hcoherent.owns_state
    t.presents_kind
  rw [transition_action hne, herror]

theorem shape {t : Step} (hcoherent : t.scan.Coherent) : t.Shape := by
  cases haction : t.action with
  | store =>
      obtain ⟨c, hsymbol⟩ := exists_char_of_consumes (t := t) (by rw [haction]; rfl)
      exact .stores c hsymbol haction
  | accept | startBlockComment | startInlineComment | stopBlockComment =>
      obtain ⟨c, hsymbol⟩ := exists_char_of_consumes (t := t) (by rw [haction]; rfl)
      exact .completes c hsymbol (by rw [haction]; rfl) (by simp [haction])
  | ignore =>
      have htable := transition_action (t := t) (by simp [haction])
      rw [haction, transition_ignore_iff] at htable
      exact .skips haction (hcoherent.isStart_iff.mp htable.1)
        fun c hsymbol => isBlank_of_kind htable.2 hsymbol
  | acceptBack1 =>
      have htable := transition_action (t := t) (by simp [haction])
      have hinside := transition_acceptBack1_not_isStart _ _ (htable.trans haction)
      refine .givesBack (Or.inl haction) fun hpending => ?_
      simp [hcoherent.isStart_iff.mpr hpending] at hinside
  | startInclude =>
      refine .givesBack (Or.inr haction) fun hpending => ?_
      have hstart := hcoherent.isStart_iff.mpr hpending
      simp [(move_of_startInclude haction).2.1, State.isStart] at hstart
  | acceptBack2 =>
      have htable := transition_action (t := t) (by simp [haction])
      have htrust := transition_acceptBack2_onTrust _ _ (htable.trans haction)
      have hlength := hcoherent.two_le_length_pending htrust
      match hpending : t.scan.pending, hlength with
      | last :: first :: rest, _ => exact .givesBackTwo haction last first rest hpending
  | error => exact absurd haction (action_ne_error hcoherent)

theorem mode_eq_of_store {t : Step} (haction : t.action = .store) : t.mode = t.scan.mode := by
  simp [Step.mode, haction, nextMode]

theorem after_pending_of_store {t : Step} {c : Char} (hsymbol : t.symbol = .char c)
    (haction : t.action = .store) : t.after.pending = c :: t.scan.pending := by
  simp [Step.after, haction, Step.held, Action.consumes, hsymbol, Symbol.chars]

/-- A step that does not store leaves nothing pending. -/
theorem after_pending_of_not_store {t : Step} (hcoherent : t.scan.Coherent)
    (haction : t.action ≠ .store) : t.after.pending = [] := by
  rcases shape hcoherent with ⟨c, _, hstore⟩ | ⟨hignore, hpending, _⟩ | ⟨c, _, hconsumes, _⟩ |
    ⟨hback, _⟩ | ⟨hback, _⟩
  · exact absurd hstore haction
  · simp [Step.after, hignore, hpending]
  · cases hcase : t.action <;> simp_all [Step.after, Action.consumes]
  · rcases hback with hback | hback <;> simp [Step.after, hback]
  · simp [Step.after, hback]

theorem after_state_of_not_store {t : Step} (hcoherent : t.scan.Coherent)
    (haction : t.action ≠ .store) : t.after.state = t.mode.startState := by
  by_cases hmode : t.mode = t.scan.mode
  · have hnext : t.after.state = t.move.next := by simp [Step.after, hmode]
    rw [hnext, hmode]
    by_cases hinclude : t.action = .startInclude
    · have hscan : t.scan.mode = .includeLiteral := by
        rw [← hmode, Step.mode, hinclude, nextMode]
      rw [(move_of_startInclude hinclude).1, hscan]
      rfl
    · rw [move_eq_transition hinclude]
      apply transition_next_eq_startState t.scan.mode t.scan.state t.kind
        hcoherent.owns_state t.presents_kind
      · rwa [transition_action hinclude]
      · rwa [transition_action hinclude]
  · simp [Step.after, hmode]

/-- Every step keeps coherence: a stored character leads the state one entry further, and
every other step leads to the front of a token. -/
theorem coherent_after {t : Step} (hcoherent : t.scan.Coherent) : t.after.Coherent := by
  by_cases haction : t.action = .store
  · obtain ⟨c, hsymbol⟩ := exists_char_of_consumes (t := t) (by rw [haction]; rfl)
    have hmode : t.after.mode = t.scan.mode := mode_eq_of_store haction
    have hkinds : t.after.kinds = t.scan.kinds ++ [t.kind] := by
      simp [Scan.kinds, Scan.text, after_pending_of_store hsymbol haction, hmode, Step.kind,
        hsymbol, Symbol.classify]
    have hmove := move_eq_transition (t := t) (by simp [haction])
    rw [Scan.Coherent, hmode, hkinds, State.reading_concat]
    refine ⟨t.scan.state, hcoherent, ?_, ?_⟩
    · rw [← hmove]
      exact haction
    · rw [← hmove]
      simp [Step.after, mode_eq_of_store haction]
  · have hkinds : t.after.kinds = [] := by
      simp [Scan.kinds, Scan.text, after_pending_of_not_store hcoherent haction]
    rw [Scan.Coherent, hkinds, State.reading, after_state_of_not_store hcoherent haction]
    rfl

end Step

theorem filterMap_cons_toList {α β : Type} (f : α → Option β) (x : α) (xs : List α) :
    (x :: xs).filterMap f = (f x).toList ++ xs.filterMap f := by
  rw [List.filterMap_cons]
  cases f x <;> rfl

namespace Scan

@[simp] theorem run_nil (scan : Scan) : scan.run [] = ⟨[], scan⟩ := by
  rw [Scan.run]

theorem run_cons_steps (t : Step) (rest : List Symbol) :
    (t.scan.run (t.symbol :: rest)).steps = t :: (t.after.run (t.unread ++ rest)).steps := by
  rw [Scan.run]

theorem run_cons_last (t : Step) (rest : List Symbol) :
    (t.scan.run (t.symbol :: rest)).last = (t.after.run (t.unread ++ rest)).last := by
  rw [Scan.run]

/-- The first step of a run looks at the first symbol, and the other steps are those of the run
that goes on after it. -/
theorem exists_of_run_steps {scan : Scan} {symbols : List Symbol} {t : Step} {later : List Step}
    (hsteps : (scan.run symbols).steps = t :: later) :
    ∃ rest, scan = t.scan ∧ symbols = t.symbol :: rest ∧
      (t.after.run (t.unread ++ rest)).steps = later := by
  cases symbols with
  | nil => simp at hsteps
  | cons symbol rest =>
      rw [run_cons_steps ⟨scan, symbol⟩ rest] at hsteps
      obtain ⟨rfl, hlater⟩ := List.cons.inj hsteps
      exact ⟨rest, rfl, rfl, hlater⟩

variable {P : Scan → List Symbol → Prop}

/-- Induction over a run, stated on steps. -/
theorem run_induction (hnil : ∀ scan, P scan [])
    (hcons : ∀ (t : Step) (rest : List Symbol),
      P t.after (t.unread ++ rest) → P t.scan (t.symbol :: rest))
    (scan : Scan) (symbols : List Symbol) : P scan symbols := by
  induction scan, symbols using Scan.run.induct with
  | case1 scan => exact hnil scan
  | case2 scan symbol rest t ih => exact hcons t rest ih

/-- The scan that is left is the one after the last step. -/
theorem run_last_eq (scan : Scan) (symbols : List Symbol) :
    (scan.run symbols).last = ((scan.run symbols).steps.getLast?.map Step.after).getD scan := by
  induction scan, symbols using run_induction with
  | hnil scan =>
      rw [run_nil]
      rfl
  | hcons t rest ih =>
      rw [run_cons_last, ih, run_cons_steps, List.getLast?_cons]
      cases (t.after.run (t.unread ++ rest)).steps.getLast? <;> rfl

theorem run_last_coherent (scan : Scan) (symbols : List Symbol) :
    scan.Coherent → (scan.run symbols).last.Coherent := by
  induction scan, symbols using run_induction with
  | hnil scan =>
      intro hcoherent
      rw [run_nil]
      exact hcoherent
  | hcons t rest ih =>
      intro hcoherent
      rw [run_cons_last]
      exact ih (Step.coherent_after hcoherent)

/-- What holds before a run and is kept by its steps holds before each step, for the symbols
that are left then. -/
theorem run_steps_invariant
    (hstep : ∀ (t : Step) (rest : List Symbol),
      P t.scan (t.symbol :: rest) → P t.after (t.unread ++ rest))
    {scan : Scan} {symbols : List Symbol} (hstart : P scan symbols)
    {before after : List Step} {t : Step}
    (hsplit : (scan.run symbols).steps = before ++ t :: after) :
    ∃ rest, P t.scan (t.symbol :: rest) ∧
      (t.scan.run (t.symbol :: rest)).steps = t :: after := by
  induction before generalizing scan symbols with
  | nil =>
      obtain ⟨rest, rfl, rfl, _⟩ := exists_of_run_steps hsplit
      exact ⟨rest, hstart, hsplit⟩
  | cons first others ih =>
      obtain ⟨rest, rfl, rfl, hlater⟩ := exists_of_run_steps hsplit
      exact ih (hstep first rest hstart) hlater

end Scan

/-- The mode in which the line after a line starts. -/
def carriedMode (mode : Mode) (line : List Char) : Mode :=
  (scanLine mode line).last.park.mode

end LineLexer
