import LineLexer.Proofs.Lexer.Parking
import LineLexer.Proofs.Scan.Respacing
/-!
Literals that the end of their line cuts off.

The end of a line is looked at more than once only if it ends a token, and then a scan skips it
at the second time.  So a scan can look at the end of the line inside a literal in its last step
but one, and nowhere else.  The literal is then the last token of the line; it reaches from
its opening delimiter, which the scan has kept the offset of, to the end of the line.
-/

namespace LineLexer

/-- The characters of the token that is being read start at the offset kept for them. -/
def Scan.Anchored (scan : Scan) : Prop :=
  scan.pending ≠ [] → scan.start + scan.pending.length = scan.offset

/-- The literal that a character opens at the start of a token. -/
def CharClass.literal? : CharClass → Option Construct
  | .doubleQuote => some .stringLiteral
  | .singleQuote => some .charLiteral
  | .angleOpen => some .includeLiteral
  | _ => none

section Table

theorem transition_openLiteral : ∀ state, state.openLiteral? ≠ none →
    (transition state .endOfLine).action = .acceptBack1 := by
  decide

/-- A literal is entered by its opening delimiter at the start of a token. -/
theorem transition_store_openLiteral : ∀ state kind,
    (transition state kind).action = .store →
      (transition state kind).next.openLiteral? = none ∨
        (transition state kind).next.openLiteral? = state.openLiteral? ∨
          state.isStart = true ∧ (transition state kind).next.openLiteral? = kind.literal? := by
  decide

theorem State.openLiteral?_of_isStart : ∀ state, State.isStart state = true →
    state.openLiteral? = none := by
  decide

theorem Mode.outside_of_openLiteral : ∀ mode state, Mode.owns mode state = true →
    state.openLiteral? ≠ none → mode ≠ .inlineComment ∧ mode ≠ .blockComment := by
  decide

end Table

/-- A literal that is being read starts with its opening delimiter. -/
theorem Mode.head_of_reading_literal {mode : Mode} {kinds : List CharClass} {state : State}
    {construct : Construct} (hreading : mode.startState.reading kinds = some state)
    (hopen : state.openLiteral? = some construct) :
    kinds.head?.bind CharClass.literal? = some construct := by
  induction kinds using List.reverseRecOn generalizing state with
  | nil =>
      obtain rfl := Option.some.inj hreading
      rw [State.openLiteral?_of_isStart _ mode.startState_isStart] at hopen
      cases hopen
  | append_singleton front kind ih =>
      obtain ⟨middle, hmiddle, hstore, rfl⟩ := State.reading_concat.mp hreading
      rcases transition_store_openLiteral middle kind hstore with hnone | hstays | ⟨hstart, henters⟩
      · rw [hnone] at hopen
        cases hopen
      · have hfront := ih hmiddle (hstays.symm.trans hopen)
        cases front with
        | nil => cases hfront
        | cons first others => exact hfront
      · obtain rfl := (Mode.isStart_of_reading hmiddle).mp hstart
        exact henters.symm.trans hopen

namespace Step

variable {t : Step} {construct : Construct}

/-- A stored character starts a token where nothing is pending. -/
theorem after_start_of_store (haction : t.action = .store) : t.after.start =
    if t.scan.pending = [] then t.scan.offset else t.scan.start := by
  obtain ⟨c, hsymbol⟩ := exists_char_of_consumes (t := t) (by rw [haction]; rfl)
  have hheld : t.held = c :: t.scan.pending := by
    simp [Step.held, haction, Action.consumes, hsymbol, Symbol.chars]
  have hstart : t.after.start =
      if t.scan.pending.isEmpty && !t.held.isEmpty then t.scan.offset else t.scan.start := rfl
  rw [hstart, hheld]
  cases t.scan.pending <;> rfl

theorem anchored_after (hcoherent : t.scan.Coherent) (hanchored : t.scan.Anchored) :
    t.after.Anchored := by
  intro hpending
  by_cases haction : t.action = .store
  · obtain ⟨c, hsymbol⟩ := exists_char_of_consumes (t := t) (by rw [haction]; rfl)
    have hoffset := after_offset_of_unread (unread_of_consumes (t := t) (by rw [haction]; rfl))
    rw [hoffset, after_pending_of_store hsymbol haction, List.length_cons,
      after_start_of_store haction]
    split
    · rename_i hnil
      rw [hnil]
      rfl
    · rename_i hinside
      rw [← hanchored hinside]
      rfl
  · exact absurd (after_pending_of_not_store hcoherent haction) hpending

/-- The step looks at the end of the line inside a literal. -/
def Cuts (t : Step) (construct : Construct) : Prop :=
  t.symbol = .endOfLine ∧ t.scan.state.openLiteral? = some construct

theorem Cuts.kind_eq (hcuts : t.Cuts construct) : t.kind = .endOfLine := by
  rw [Step.kind, hcuts.1]
  rfl

theorem Cuts.action_eq (hcuts : t.Cuts construct) : t.action = .acceptBack1 := by
  have htable := transition_openLiteral t.scan.state (by simp [hcuts.2])
  rcases t.move_cases with hmove | ⟨_, hdirective, _⟩
  · rw [Step.action, hmove, hcuts.kind_eq, htable]
  · have hopen := hcuts.2
    rw [hdirective] at hopen
    cases hopen

theorem cutLiteral?_eq_some_iff : t.cutLiteral? = some construct ↔ t.Cuts construct := by
  unfold cutLiteral?
  constructor
  · intro hcut
    split at hcut
    · rename_i hend
      exact ⟨symbol_eq_endOfLine hend.1, hcut⟩
    · cases hcut
  · intro hcuts
    rw [if_pos ⟨hcuts.kind_eq, hcuts.action_eq⟩]
    exact hcuts.2

theorem warning?_of_cuts (hcuts : t.Cuts construct) (number : Nat) :
    t.warning? true number = some (.openAtLineEnd construct ⟨number, t.scan.start + 1⟩) := by
  rw [Step.warning?, if_neg (by simp [hcuts.action_eq]), if_pos rfl,
    cutLiteral?_eq_some_iff.mpr hcuts]
  rfl

theorem warning?_eq_none (hcoherent : t.scan.Coherent) (hcuts : ∀ construct, ¬ t.Cuts construct)
    (report : Bool) (number : Nat) : t.warning? report number = none := by
  have hcut : t.cutLiteral? = none := by
    rw [Option.eq_none_iff_forall_ne_some]
    exact fun construct => mt cutLiteral?_eq_some_iff.mp (hcuts construct)
  rw [Step.warning?, if_neg (action_ne_error hcoherent), hcut]
  cases report <;> rfl

end Step

/-- At the front of a token the end of the line is skipped, and nothing is left then. -/
theorem Scan.AtFront.run_endOfLine {mode : Mode} {front : Scan} (hfront : front.AtFront mode) :
    (front.run [.endOfLine]).steps = [⟨front, .endOfLine⟩] ∧
      (⟨front, .endOfLine⟩ : Step).action = .ignore := by
  have htable : (transition front.state .endOfLine).action = .ignore := by
    rw [transition_ignore_iff, hfront.state_eq]
    exact ⟨mode.startState_isStart, Or.inr rfl⟩
  have haction : (⟨front, .endOfLine⟩ : Step).action = .ignore := by
    have hback : (transition front.state .endOfLine).action ≠ .acceptBack1 := by
      rw [htable]
      decide
    rw [Step.action, Step.move_eq_of_ne_acceptBack1 hback]
    exact htable
  have hunread : (⟨front, .endOfLine⟩ : Step).unread = [] := by simp [Step.unread, haction]
  refine ⟨?_, haction⟩
  rw [Scan.run_cons_steps ⟨front, .endOfLine⟩ [], hunread, List.append_nil, Scan.run_nil]

section Cut

variable {mode : Mode} {line : List Char} {before after : List Step} {t : Step}
  {construct : Construct}

/-- After a step that finds the end of the line inside a literal, the scan skips the end of the
line and is done. -/
theorem Step.Cuts.after_eq (hcuts : t.Cuts construct)
    (hsplit : (scanLine mode line).steps = before ++ t :: after) :
    ∃ skip : Step, after = [skip] ∧ skip.scan = t.after ∧ skip.action = .ignore := by
  obtain ⟨rest, hcoherent, hwithin, hsteps⟩ := scanLine_steps_within hsplit
  rw [hcuts.1] at hwithin
  have hrest := hwithin.rest_of_endOfLine
  have hunread : t.unread = [.endOfLine] := by
    rw [Step.unread_of_givesBack (Or.inl hcuts.action_eq), hcuts.1]
  have hfront := Step.atFront_after hcoherent (by simp [hcuts.action_eq])
  obtain ⟨hskips, hignore⟩ := hfront.run_endOfLine
  rw [Scan.run_cons_steps, hunread, hrest, List.append_nil, hskips] at hsteps
  exact ⟨_, (List.cons.inj hsteps).2.symm, rfl, hignore⟩

/-- Only one step finds the end of the line inside a literal. -/
theorem Step.Cuts.not_cuts_before (hcuts : t.Cuts construct)
    (hsplit : (scanLine mode line).steps = before ++ t :: after) {other : Step}
    (hmem : other ∈ before) (otherConstruct : Construct) : ¬ other.Cuts otherConstruct := by
  intro hother
  obtain ⟨earlier, between, rfl⟩ := List.append_of_mem hmem
  rw [List.append_assoc, List.cons_append] at hsplit
  obtain ⟨skip, hskip, hscan, _⟩ := hother.after_eq hsplit
  obtain ⟨_, hcoherent, _⟩ := scanLine_steps_within hsplit
  have ht : t = skip := by
    have hmem : t ∈ between ++ t :: after := by simp
    rw [hskip] at hmem
    exact List.mem_singleton.mp hmem
  have hopen := hcuts.2
  have hfront := Step.atFront_after hcoherent (by simp [hother.action_eq])
  rw [ht, hscan, hfront.state_eq,
    State.openLiteral?_of_isStart _ (Mode.startState_isStart _)] at hopen
  cases hopen

/-- A literal that is open at the end of the line reaches from its opening delimiter to there. -/
theorem Step.Cuts.text_eq (hcuts : t.Cuts construct)
    (hsplit : (scanLine mode line).steps = before ++ t :: after) :
    t.scan.text = line.drop t.scan.start ∧
      ((line.drop t.scan.start).head?.map (CharClass.classify t.scan.mode)).bind
        CharClass.literal? = some construct := by
  obtain ⟨rest, ⟨hcoherent, hwithin, hanchored⟩, _⟩ := Scan.run_steps_invariant
    (P := fun scan symbols =>
      scan.Coherent ∧ Scan.Within line scan symbols ∧ scan.Anchored)
    (fun _ _ h => ⟨Step.coherent_after h.1, Step.within_after h.1 h.2.1,
      Step.anchored_after h.1 h.2.2⟩)
    ⟨Scan.coherent_ofMode mode, Scan.within_ofMode mode line, fun h => absurd rfl h⟩ hsplit
  have hpending : t.scan.pending ≠ [] := by
    intro hnil
    have hopen := hcuts.2
    rw [State.openLiteral?_of_isStart _ (hcoherent.isStart_iff.mpr hnil)] at hopen
    cases hopen
  have hstart := hanchored hpending
  have htext : t.scan.text = line.drop t.scan.start := by
    rw [hcuts.1] at hwithin
    cases hwithin with
    | finished _ _ hsymbols => cases hsymbols
    | inside read left hline hoffset hsuffix hsymbols =>
        obtain rfl : left = [] := by
          cases left with
          | nil => rfl
          | cons c left => cases hsymbols
        obtain ⟨front, rfl⟩ := hsuffix
        have hlength : t.scan.start = front.length := by
          rw [List.length_append, Scan.text, List.length_reverse] at hoffset
          omega
        rw [hline, List.append_nil, hlength, List.drop_left]
  refine ⟨htext, ?_⟩
  have hhead := Mode.head_of_reading_literal hcoherent hcuts.2
  rw [Scan.kinds, htext, List.head?_map] at hhead
  exact hhead

namespace Step.Cuts

variable (hcuts : t.Cuts construct)
  (hsplit : (scanLine mode line).steps = before ++ t :: after)

include hcuts hsplit

/-- The line has one warning, at the start of the literal. -/
theorem warnings_eq (number : Nat) : (scanLine mode line).warnings true number =
    [.openAtLineEnd construct ⟨number, t.scan.start + 1⟩] := by
  obtain ⟨skip, rfl, _, hskips⟩ := hcuts.after_eq hsplit
  have hbefore : before.filterMap (Step.warning? true number) = [] := by
    rw [List.filterMap_eq_nil_iff]
    intro other hother
    have hmem : other ∈ (scanLine mode line).steps := by
      rw [hsplit]
      exact List.mem_append_left _ hother
    exact warning?_eq_none (scanLine_coherent hmem) (hcuts.not_cuts_before hsplit hother) true
      number
  have hskip : skip.warning? true number = none := by
    have hmem : skip ∈ (scanLine mode line).steps := by simp [hsplit]
    apply warning?_eq_none (scanLine_coherent hmem)
    intro other hother
    have haction := hother.action_eq
    rw [hskips] at haction
    cases haction
  rw [Run.warnings, hsplit, List.filterMap_append, hbefore, filterMap_cons_toList,
    filterMap_cons_toList, warning?_of_cuts hcuts, hskip]
  rfl

/-- The literal is the last token of the line. -/
theorem tokens_eq : (scanLine mode line).tokens =
    before.filterMap Step.token? ++ [line.drop t.scan.start] := by
  obtain ⟨skip, rfl, _, hskips⟩ := hcuts.after_eq hsplit
  have hcoherent : t.scan.Coherent := scanLine_coherent (by rw [hsplit]; simp)
  have hinline := (Mode.outside_of_openLiteral _ _ hcoherent.owns_state (by simp [hcuts.2])).1
  have htoken : t.token? = some (line.drop t.scan.start) := by
    rw [token?_eq_some_body hcoherent (by simp [hcuts.action_eq]) (by simp [hcuts.action_eq]),
      Step.body, if_neg hinline, ended_of_givesBack (Or.inl hcuts.action_eq),
      (hcuts.text_eq hsplit).1]
  rw [Run.tokens, hsplit, List.filterMap_append, filterMap_cons_toList, filterMap_cons_toList,
    htoken, token?_of_ended_eq_nil (ended_of_ignore hskips)]
  rfl

end Step.Cuts

end Cut

end LineLexer
