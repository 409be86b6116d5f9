import LineLexer.Proofs.Scan.Comments
import LineLexer.Proofs.Scan.Resumption
/-!
A blank in the place of a line break.

Outside of quotes and of inline comments the table makes no difference between white space and the
end of the line, also where it gives characters back.  So a scan that meets a blank where the line
would have ended takes the same steps, from the same scans, and goes on with what follows the blank.
From there on it differs from the scan of a line of its own in its positions only.
-/

namespace LineLexer

/-- The states inside of literals and of quoted spans of comments. -/
def State.isQuoted : State → Bool
  | .string | .stringEscape | .char | .charEscape | .angleLiteral | .commentString
  | .commentStringEscape => true
  | _ => false

section Table

theorem transition_whitespace : ∀ state, State.isQuoted state = false → state ≠ .inlineBody →
    transition state .whitespace = transition state .endOfLine := by
  decide

theorem State.openLiteral?_of_not_isQuoted : ∀ state, State.isQuoted state = false →
    state.openLiteral? = none := by
  decide

end Table

section Blank

variable {c : Char}

/-- A blank instead of the end of the line. -/
def Symbol.blanked (c : Char) : Symbol → Symbol
  | .char d => .char d
  | .endOfLine => .char c

/-- The step that finds a blank instead of the end of the line. -/
def Step.blanked (c : Char) (t : Step) : Step :=
  ⟨t.scan, t.symbol.blanked c⟩

/-- The step does not look at the end of the line from inside quotes or an inline comment. -/
def Step.EndsOutside (t : Step) : Prop :=
  t.symbol = .endOfLine → t.scan.state.isQuoted = false ∧ t.scan.state ≠ .inlineBody

/-- With a blank for the end of the line no step looks at the end. -/
theorem Step.blanked_endsOutside (c : Char) (t : Step) : (t.blanked c).EndsOutside := by
  intro hend
  cases hsymbol : t.symbol <;> simp [Step.blanked, Symbol.blanked, hsymbol] at hend

theorem map_blanked_lineSymbols (line : List Char) :
    (lineSymbols line).map (Symbol.blanked c) = line.map .char ++ [.char c] := by
  simp [lineSymbols, Symbol.blanked, Function.comp_def]

namespace Step

variable {t : Step} (hblank : isBlank c = true) (houtside : t.EndsOutside)

include hblank houtside

theorem blanked_move : (t.blanked c).move = t.move := by
  obtain ⟨scan, symbol⟩ := t
  cases symbol with
  | char d => rfl
  | endOfLine =>
      obtain ⟨hquoted, hinline⟩ := houtside rfl
      have hkind : (Step.blanked c ⟨scan, .endOfLine⟩).kind = .whitespace :=
        CharClass.classify_of_isBlank scan.mode hblank
      rw [Step.move, hkind]
      change step scan.state .whitespace scan.pending = step scan.state .endOfLine scan.pending
      rw [step, step, transition_whitespace scan.state hquoted hinline]

theorem blanked_action : (t.blanked c).action = t.action :=
  congrArg Move.action (blanked_move hblank houtside)

/-- The blank is not read into the token. -/
theorem blanked_held : (t.blanked c).held = t.held := by
  have haction := blanked_action hblank houtside
  obtain ⟨scan, symbol⟩ := t
  cases symbol with
  | char d => rfl
  | endOfLine =>
      have hconsumes : (⟨scan, .endOfLine⟩ : Step).action.consumes = false := by
        by_contra hconsumes
        obtain ⟨d, hd⟩ := exists_char_of_consumes (Bool.not_eq_false _ ▸ hconsumes)
        cases hd
      rw [Step.held, Step.held, haction, hconsumes]
      rfl

theorem blanked_token? : (t.blanked c).token? = t.token? := by
  have hended : (t.blanked c).ended = t.ended := by
    rw [Step.ended, Step.ended, blanked_action hblank houtside, blanked_held hblank houtside]
  rw [Step.token?, Step.token?, hended]
  rfl

/-- What is looked at again is the blank, where it would have been the end of the line. -/
theorem blanked_unread : (t.blanked c).unread = t.unread.map (Symbol.blanked c) := by
  rw [Step.unread, Step.unread, blanked_action hblank houtside]
  cases t.action with
  | acceptBack2 =>
      rw [List.map_append, List.map_map]
      rfl
  | _ => rfl

theorem blanked_after : (t.blanked c).after = t.after := by
  have hunread : (t.blanked c).unread.length = t.unread.length := by
    rw [blanked_unread hblank houtside, List.length_map]
  rw [Step.after, Step.after, Step.mode, Step.mode, blanked_move hblank houtside,
    blanked_action hblank houtside, blanked_held hblank houtside, hunread]
  rfl

end Step

/-- A run that meets a blank instead of the end of the line takes the same steps and leads to the
same scan, and goes on with what follows the blank. -/
theorem Scan.run_blanked (hblank : isBlank c = true) (more : List Symbol) (scan : Scan)
    (symbols : List Symbol) :
    (∀ t ∈ (scan.run symbols).steps, t.EndsOutside) →
      (scan.run (symbols.map (Symbol.blanked c) ++ more)).steps =
          (scan.run symbols).steps.map (Step.blanked c) ++
            ((scan.run symbols).last.run more).steps ∧
        (scan.run (symbols.map (Symbol.blanked c) ++ more)).last =
          ((scan.run symbols).last.run more).last := by
  induction scan, symbols using Scan.run_induction with
  | hnil scan =>
      intro _
      rw [Scan.run_nil]
      exact ⟨rfl, rfl⟩
  | hcons t rest ih =>
      intro houtside
      rw [run_cons_steps] at houtside
      have hfirst : t.EndsOutside := houtside t List.mem_cons_self
      obtain ⟨hsteps, hlast⟩ :=
        ih fun other hother => houtside other (List.mem_cons_of_mem t hother)
      have hrun : t.scan.run ((t.symbol :: rest).map (Symbol.blanked c) ++ more) =
          (t.blanked c).scan.run ((t.blanked c).symbol :: (rest.map (Symbol.blanked c) ++ more)) :=
        rfl
      rw [hrun, run_cons_steps, run_cons_last, run_cons_steps, run_cons_last,
        Step.blanked_after hblank hfirst, Step.blanked_unread hblank hfirst, ← List.append_assoc,
        ← List.map_append, hsteps, hlast]
      exact ⟨rfl, rfl⟩

end Blank

section Join

/-- An inline comment goes on to the end of its line. -/
theorem Scan.run_inlineComment (scan : Scan) (symbols : List Symbol) :
    scan.Coherent → scan.mode = .inlineComment →
      (scan.run symbols).last.mode = .inlineComment := by
  induction scan, symbols using Scan.run_induction with
  | hnil scan =>
      intro _ hmode
      rw [Scan.run_nil]
      exact hmode
  | hcons t rest ih =>
      intro hcoherent hmode
      rw [run_cons_last]
      exact ih (Step.coherent_after hcoherent) (Step.mode_of_inlineComment hcoherent hmode)

/-- A run that does not end in an inline comment has not been in one. -/
theorem Scan.mode_ne_inlineComment_of_run (scan : Scan) (symbols : List Symbol) :
    scan.Coherent → (scan.run symbols).last.mode ≠ .inlineComment →
      ∀ t ∈ (scan.run symbols).steps, t.scan.mode ≠ .inlineComment := by
  induction scan, symbols using Scan.run_induction with
  | hnil scan =>
      intro _ _ t hmem
      rw [Scan.run_nil] at hmem
      cases hmem
  | hcons t rest ih =>
      intro hcoherent hlast other hmem
      rw [run_cons_steps] at hmem
      rcases List.mem_cons.mp hmem with rfl | hlater
      · exact mt (Scan.run_inlineComment _ _ hcoherent) hlast
      · rw [run_cons_last] at hlast
        exact ih (Step.coherent_after hcoherent) hlast other hlater

variable {mode : Mode} {front : List Char} {c : Char}

theorem endsOutside_of_scanLine
    (hends : ∀ t ∈ (scanLine mode front).steps, t.symbol = .endOfLine →
      t.scan.state.isQuoted = false)
    (hlast : (scanLine mode front).last.mode ≠ .inlineComment) :
    ∀ t ∈ (scanLine mode front).steps, t.EndsOutside := by
  intro t hmem hend
  refine ⟨hends t hmem hend, ?_⟩
  intro hstate
  apply Scan.mode_ne_inlineComment_of_run _ _ (Scan.coherent_ofMode mode) hlast t hmem
  rw [← (scanLine_coherent hmem).stateInMode.inlineComment_iff, hstate]
  rfl

/-- Outside of quotes the end of the line cuts nothing off. -/
theorem Step.EndsOutside.not_cuts {t : Step} (houtside : t.EndsOutside) (construct : Construct) :
    ¬ t.Cuts construct := by
  rintro ⟨hend, hopen⟩
  rw [State.openLiteral?_of_not_isQuoted _ (houtside hend).1] at hopen
  cases hopen

/-- The scan after a line stands behind its end like the scan in front of another line. -/
theorem akin_last_scanLine (mode : Mode) (front : List Char) :
    (scanLine mode front).last.Akin
      ((Scan.ofMode (scanLine mode front).last.mode).translate (front.length + 1)) := by
  have hlast := scanLine_last_within mode front
  have hcoherent : (scanLine mode front).last.Coherent :=
    Scan.run_last_coherent _ _ (Scan.coherent_ofMode mode)
  have hpending := hlast.pending_eq_nil
  refine ⟨⟨rfl, hcoherent.state_eq_startState hpending, hpending⟩, ?_, ?_⟩
  · rw [hlast.offset_of_nil, Scan.translate, Scan.ofMode, Nat.zero_add]
  · exact fun hinside => absurd hpending hinside

variable (hblank : isBlank c = true)
  (houtside : ∀ t ∈ (scanLine mode front).steps, t.EndsOutside)

include hblank houtside

/-- The steps over a line go on behind a blank as those over the next line. -/
theorem scanLine_blanked (back : List Char) :
    (scanLine mode (front ++ c :: back)).steps =
        (scanLine mode front).steps.map (Step.blanked c) ++
          ((scanLine mode front).last.run (lineSymbols back)).steps ∧
      (scanLine mode (front ++ c :: back)).last =
        ((scanLine mode front).last.run (lineSymbols back)).last := by
  have hsymbols : (lineSymbols front).map (Symbol.blanked c) ++ lineSymbols back =
      lineSymbols (front ++ c :: back) := by
    rw [map_blanked_lineSymbols, lineSymbols_append, lineSymbols_cons, List.append_assoc]
    rfl
  have hrun := Scan.run_blanked hblank (lineSymbols back) (Scan.ofMode mode) (lineSymbols front)
    houtside
  rw [hsymbols] at hrun
  exact hrun

theorem filterMap_token?_blanked :
    ((scanLine mode front).steps.map (Step.blanked c)).filterMap Step.token? =
      (scanLine mode front).tokens := by
  rw [List.filterMap_map]
  exact List.filterMap_congr fun t hmem => Step.blanked_token? hblank (houtside t hmem)

omit hblank in
/-- Neither the line nor the front of the longer line has anything to report. -/
theorem warnings_of_endsOutside (report : Bool) (number : Nat) :
    (scanLine mode front).warnings report number = [] ∧
      ((scanLine mode front).steps.map (Step.blanked c)).filterMap
        (Step.warning? report number) = [] := by
  rw [Run.warnings, List.filterMap_map, List.filterMap_eq_nil_iff, List.filterMap_eq_nil_iff]
  constructor
  · intro t hmem
    exact Step.warning?_eq_none (scanLine_coherent hmem) (houtside t hmem).not_cuts report number
  · intro t hmem
    have hcoherent : t.scan.Coherent := scanLine_coherent hmem
    exact Step.warning?_eq_none (t := t.blanked c) hcoherent (t.blanked_endsOutside c).not_cuts
      report number

end Join

/-- If a line ends outside of quotes and leaves no inline comment or include directive open, a blank
may stand for the line break after it.  All looks at the end of the line count: where a quote was
read on trust and is given back, the scan comes to the end a second time, inside of a literal. -/
theorem scanLine_lineBreak {mode : Mode} {front : List Char} {c : Char} (hblank : isBlank c = true)
    (hends : ∀ t ∈ (scanLine mode front).steps, t.symbol = .endOfLine →
      t.scan.state.isQuoted = false)
    (hlast : (scanLine mode front).last.mode = .normal ∨
      (scanLine mode front).last.mode = .blockComment) (back : List Char) :
    let first := scanLine mode front
    let second := scanLine (carriedMode mode front) back
    let joined := scanLine mode (front ++ c :: back)
    joined.tokens = first.tokens ++ second.tokens ∧
      joined.last.mode = second.last.mode ∧
      ∀ report number other, first.warnings report number = [] ∧
        joined.warnings report number =
          (second.warnings report other).map (Diagnostic.moved number (front.length + 1)) := by
  intro first second joined
  have hinline : (scanLine mode front).last.mode ≠ .inlineComment := by
    rcases hlast with hmode | hmode <;> rw [hmode] <;> decide
  have houtside := endsOutside_of_scanLine hends hinline
  have hakin := akin_last_scanLine mode front
  have hcarried : carriedMode mode front = (scanLine mode front).last.mode := by
    change (scanLine mode front).last.mode.atLineEnd = _
    rcases hlast with hmode | hmode <;> rw [hmode] <;> rfl
  rw [← hcarried] at hakin
  obtain ⟨htokens, hmode, hwarnings⟩ := hakin.run_translate back
  obtain ⟨hsteps, hend⟩ := scanLine_blanked hblank houtside back
  refine ⟨?_, ?_, ?_⟩
  · have hfront : _ = first.tokens := filterMap_token?_blanked hblank houtside
    change joined.steps.filterMap Step.token? = _
    rw [hsteps, List.filterMap_append, hfront]
    exact congrArg _ htokens
  · rw [hend]
    exact hmode
  · intro report number other
    obtain ⟨hnone, hblanked⟩ := warnings_of_endsOutside houtside report number
    refine ⟨hnone, ?_⟩
    change joined.steps.filterMap (Step.warning? report number) = _
    rw [hsteps, List.filterMap_append, hblanked, List.nil_append]
    exact hwarnings report number other

end LineLexer
