import LineLexer.Proofs.Scan.Loop
import LineLexer.Proofs.Scan.OpenLiterals
/-!
Scans that go on from where another scan has stopped.

A scan keeps the start of its last token until the next token begins, on the next line as well,
where nothing resets it.  This shows in nothing that a run finds (`Scan.Akin`).  And a scan that
starts further on in its line finds the same, with all positions moved (`Scan.translate`).
-/

namespace LineLexer

/-- A scan at the front of a line that still has the start of a token of an earlier line, which
nothing resets. -/
def Scan.resume (mode : Mode) (start : Nat) : Scan :=
  { Scan.ofMode mode with start }

/-- Two scans that differ in nothing but the start of a token that is no longer pending. -/
structure Scan.Akin (first second : Scan) : Prop extends Scan.Alike first second where
  offset_eq : first.offset = second.offset
  start_eq : first.pending ≠ [] → first.start = second.start

theorem Scan.resume_akin (mode : Mode) (start : Nat) :
    (Scan.resume mode start).Akin (Scan.ofMode mode) where
  mode_eq := rfl
  state_eq := rfl
  pending_eq := rfl
  offset_eq := rfl
  start_eq hpending := absurd rfl hpending

/-- A token whose first character is added by a step is held by it. -/
theorem Step.held_ne_nil {t : Step} (hpending : t.scan.pending = [])
    (hafter : t.after.pending ≠ []) : t.held ≠ [] := by
  intro hheld
  apply hafter
  simp only [Step.after]
  split
  · exact hheld
  · exact hpending
  · rfl

namespace Scan.Akin

variable {first second : Scan} (hakin : first.Akin second)

include hakin

/-- The start is kept by the first character of a token and matters to none before it. -/
theorem after (symbol : Symbol) :
    (⟨first, symbol⟩ : Step).after.Akin (⟨second, symbol⟩ : Step).after := by
  obtain ⟨mode, state, pending, start, offset⟩ := first
  obtain ⟨_, _, _, other, _⟩ := second
  obtain ⟨⟨rfl, rfl, rfl⟩, rfl, hstart⟩ := hakin
  refine ⟨⟨rfl, rfl, rfl⟩, rfl, ?_⟩
  intro hpending
  cases pending with
  | cons last others =>
      obtain rfl : start = other := hstart (by simp)
      rfl
  | nil =>
      have hheld := Step.held_ne_nil (t := ⟨⟨mode, state, [], start, offset⟩, symbol⟩) rfl hpending
      have hother : (⟨⟨mode, state, [], other, offset⟩, symbol⟩ : Step).held ≠ [] := hheld
      simp [Step.after, hheld, hother]

theorem warning?_eq (hcoherent : second.Coherent) (symbol : Symbol) (report : Bool)
    (number : Nat) :
    (⟨first, symbol⟩ : Step).warning? report number =
      (⟨second, symbol⟩ : Step).warning? report number := by
  have hfirst : first.Coherent := hakin.toAlike.coherent hcoherent
  rw [Step.warning?, Step.warning?,
    if_neg (Step.action_ne_error (t := ⟨first, symbol⟩) hfirst),
    if_neg (Step.action_ne_error (t := ⟨second, symbol⟩) hcoherent)]
  have hcut : (⟨first, symbol⟩ : Step).cutLiteral? = (⟨second, symbol⟩ : Step).cutLiteral? := by
    obtain ⟨mode, state, pending, start, offset⟩ := first
    obtain ⟨_, _, _, other, _⟩ := second
    obtain ⟨⟨rfl, rfl, rfl⟩, rfl, _⟩ := hakin
    rfl
  rw [← hcut]
  cases hopen : (⟨first, symbol⟩ : Step).cutLiteral? with
  | none => rfl
  | some construct =>
      -- A literal that is cut off is pending.
      have hstate : first.state.openLiteral? = some construct :=
        (Step.cutLiteral?_eq_some_iff.mp hopen).2
      have hpending : first.pending ≠ [] := by
        intro hnil
        rw [State.openLiteral?_of_isStart _ (hfirst.isStart_iff.mpr hnil)] at hstate
        cases hstate
      simp only [Option.map_some, hakin.start_eq hpending]

end Scan.Akin

/-- Two runs that find the same in a line. -/
structure Run.Akin (first second : Run) : Prop where
  tokens_eq : first.tokens = second.tokens
  warnings_eq : ∀ report number, first.warnings report number = second.warnings report number
  opensBlock_eq : first.opensBlock = second.opensBlock
  last : first.last.Akin second.last

theorem Scan.Akin.run {first second : Scan} (symbols : List Symbol) (hakin : first.Akin second)
    (hcoherent : second.Coherent) : (first.run symbols).Akin (second.run symbols) := by
  induction second, symbols using Scan.run_induction generalizing first with
  | hnil second =>
      rw [Scan.run_nil, Scan.run_nil]
      exact ⟨rfl, fun _ _ => rfl, rfl, hakin⟩
  | hcons t rest ih =>
      obtain ⟨htoken, _, hmode, hunread⟩ := hakin.toAlike.step t.symbol
      have hopens : (⟨first, t.symbol⟩ : Step).opensBlock = t.opensBlock := by
        rw [Step.opensBlock, Step.opensBlock, hmode, hakin.mode_eq]
      have hsteps := Scan.run_cons_steps ⟨first, t.symbol⟩ rest
      have hlast := Scan.run_cons_last ⟨first, t.symbol⟩ rest
      rw [hunread] at hsteps hlast
      have hlater := ih (hakin.after t.symbol) (Step.coherent_after hcoherent)
      refine ⟨?_, ?_, ?_, ?_⟩
      · rw [Run.tokens, Run.tokens, hsteps, Scan.run_cons_steps, filterMap_cons_toList,
          filterMap_cons_toList, htoken]
        exact congrArg _ hlater.tokens_eq
      · intro report number
        rw [Run.warnings, Run.warnings, hsteps, Scan.run_cons_steps, filterMap_cons_toList,
          filterMap_cons_toList, hakin.warning?_eq hcoherent]
        exact congrArg _ (hlater.warnings_eq report number)
      · rw [Run.opensBlock, Run.opensBlock, hsteps, Scan.run_cons_steps, List.any_cons,
          List.any_cons, hopens]
        exact congrArg _ hlater.opensBlock_eq
      · rw [hlast, Scan.run_cons_last]
        exact hlater.last

/-- A scan that goes on from an earlier line finds what a new scan finds. -/
theorem Scan.resume_run_akin (mode : Mode) (start : Nat) (line : List Char) :
    ((Scan.resume mode start).run (lineSymbols line)).Akin (scanLine mode line) :=
  (Scan.resume_akin mode start).run (lineSymbols line) (Scan.coherent_ofMode mode)

/-- The same report in another line, some columns further on. -/
def Diagnostic.moved (line columns : Nat) (diagnostic : Diagnostic) : Diagnostic :=
  { diagnostic with position := ⟨line, diagnostic.position.column + columns⟩ }

/-- The same scan, some columns further on in its line. -/
def Scan.translate (columns : Nat) (scan : Scan) : Scan :=
  { scan with start := scan.start + columns, offset := scan.offset + columns }

/-- The same step, some columns further on in its line. -/
def Step.translate (columns : Nat) (t : Step) : Step :=
  ⟨t.scan.translate columns, t.symbol⟩

section Translation

namespace Step

variable {columns : Nat} {t : Step}

theorem translate_after {line : List Char} {rest : List Symbol} (hcoherent : t.scan.Coherent)
    (hwithin : Scan.Within line t.scan (t.symbol :: rest)) :
    (t.translate columns).after = t.after.translate columns := by
  -- No more is given back than has been read, so that the subtraction is one of numbers.
  have hgiven : t.unread.length ≤ t.scan.offset + 1 := by
    have hoffset := offset_after hcoherent hwithin
    have hback := t.length_unread_le
    omega
  have hstart : (t.translate columns).after.start = t.after.start + columns := by
    change (if _ then t.scan.offset + columns else t.scan.start + columns) = _
    rw [← apply_ite (· + columns)]
    rfl
  have hoffset : (t.translate columns).after.offset = t.after.offset + columns := by
    change t.scan.offset + columns + 1 - t.unread.length =
      t.scan.offset + 1 - t.unread.length + columns
    omega
  rw [Scan.translate, ← hstart, ← hoffset]
  rfl

theorem translate_warning? (report : Bool) (number other : Nat) :
    (t.translate columns).warning? report number =
      (t.warning? report other).map (Diagnostic.moved number columns) := by
  have haction : (t.translate columns).action = t.action := rfl
  have hcut : (t.translate columns).cutLiteral? = t.cutLiteral? := rfl
  rw [warning?, warning?, haction, hcut]
  split
  · rw [Option.map_some, Diagnostic.moved, Diagnostic.warning, Diagnostic.warning]
    simp only [Nat.add_right_comm]
    rfl
  · split
    · rw [Option.map_map]
      congr 1
      funext construct
      simp only [Function.comp_apply, Diagnostic.moved, Diagnostic.openAtLineEnd,
        Diagnostic.warning, Nat.add_right_comm _ 1]
      rfl
    · rfl

end Step

/-- A scan further on takes the same steps further on. -/
theorem Scan.run_translate {line : List Char} (columns : Nat) (scan : Scan)
    (symbols : List Symbol) :
    scan.Coherent → Scan.Within line scan symbols →
      ((scan.translate columns).run symbols).steps =
          (scan.run symbols).steps.map (Step.translate columns) ∧
        ((scan.translate columns).run symbols).last =
          (scan.run symbols).last.translate columns := by
  induction scan, symbols using Scan.run_induction with
  | hnil scan =>
      intro _ _
      rw [Scan.run_nil, Scan.run_nil]
      exact ⟨rfl, rfl⟩
  | hcons t rest ih =>
      intro hcoherent hwithin
      obtain ⟨hsteps, hlast⟩ := ih (Step.coherent_after hcoherent)
        (Step.within_after hcoherent hwithin)
      have hunread : (t.translate columns).unread = t.unread := rfl
      have hrun : (t.scan.translate columns).run (t.symbol :: rest) =
          (t.translate columns).scan.run ((t.translate columns).symbol :: rest) := rfl
      rw [hrun, run_cons_steps, run_cons_last, run_cons_steps t, run_cons_last t, hunread,
        Step.translate_after hcoherent hwithin, hsteps, hlast]
      exact ⟨rfl, rfl⟩

/-- A scan that stands further on like a scan at the front of a line finds what a scan of the line
finds, further on. -/
theorem Scan.Akin.run_translate {mode : Mode} {columns : Nat} {later : Scan}
    (hakin : later.Akin ((Scan.ofMode mode).translate columns)) (line : List Char) :
    (later.run (lineSymbols line)).tokens = (scanLine mode line).tokens ∧
      (later.run (lineSymbols line)).last.mode = (scanLine mode line).last.mode ∧
      ∀ report number other, (later.run (lineSymbols line)).warnings report number =
        ((scanLine mode line).warnings report other).map (Diagnostic.moved number columns) := by
  obtain ⟨hsteps, hlast⟩ := Scan.run_translate columns (Scan.ofMode mode) (lineSymbols line)
    (Scan.coherent_ofMode mode) (Scan.within_ofMode mode line)
  have hrun := hakin.run (lineSymbols line) (Scan.coherent_ofMode mode)
  refine ⟨?_, ?_, ?_⟩
  · rw [hrun.tokens_eq, Run.tokens, hsteps, List.filterMap_map]
    rfl
  · rw [hrun.last.mode_eq, hlast]
    rfl
  · intro report number other
    rw [hrun.warnings_eq, Run.warnings, hsteps, List.filterMap_map, Run.warnings,
      List.map_filterMap]
    exact List.filterMap_congr fun t _ => t.translate_warning? report number other

end Translation

end LineLexer
