import LineLexer.Proofs.Lexer.Parking
import LineLexer.Proofs.Scan.Comments
/-!
The block comment that is open at the end of the input.

A scan enters a block comment only outside of one and leaves it only inside, so the marks of block
comments alternate, and one more has been entered than left exactly while the mode is that of
block comments.  The number that a lexer keeps is that of the line on which it last entered one.
It is never reset, but it is looked at only while a comment is open, and then it is the number of
that comment's line (`Accounts`).
-/

namespace LineLexer

/-- How many block comments are open in a mode. -/
def Mode.openComments : Mode → Nat
  | .blockComment => 1
  | .normal | .inlineComment | .includeLiteral => 0

theorem Mode.openComments_of_ne {mode : Mode} (hmode : mode ≠ .blockComment) :
    mode.openComments = 0 := by
  cases mode <;> first | rfl | exact absurd rfl hmode

theorem Mode.openComments_atLineEnd (mode : Mode) :
    mode.atLineEnd.openComments = mode.openComments := by
  cases mode <;> rfl

namespace Step

variable {t : Step}

theorem mode_eq_blockComment_iff (hmode : t.scan.mode ≠ .blockComment) :
    t.mode = .blockComment ↔ t.action = .startBlockComment := by
  unfold Step.mode nextMode
  cases t.action with
  | accept =>
      dsimp only
      split <;> simp [hmode]
  | _ => simp [hmode]

variable (hcoherent : t.scan.Coherent)

include hcoherent

theorem mode_ne_of_startBlockComment (haction : t.action = .startBlockComment) :
    t.scan.mode ≠ .blockComment := by
  intro hmode
  have hcode := startState_of_enters hcoherent (Or.inr (Or.inl haction))
  rw [hmode] at hcode
  cases hcode

theorem token?_of_startBlockComment (haction : t.action = .startBlockComment) :
    t.token? = some ['/', '*'] := by
  have hmark : t.action = CommentMark.blockOpening.action := haction
  have hended : t.ended.reverse = ['/', '*'] := ended_of_mark hcoherent hmark
  have hmode : t.scan.mode ≠ .inlineComment := by
    intro hmode
    have hcode := startState_of_enters hcoherent (Or.inr (Or.inl haction))
    rw [hmode] at hcode
    cases hcode
  simp only [token?, hended, if_neg hmode]
  rfl

/-- A scan enters a block comment in the step that ends its opening mark. -/
theorem opensBlock_iff : t.opensBlock = true ↔ t.action = .startBlockComment := by
  simp only [opensBlock, Bool.and_eq_true, beq_iff_eq, bne_iff_ne, ne_eq]
  constructor
  · rintro ⟨hafter, hbefore⟩
    exact (mode_eq_blockComment_iff hbefore).mp hafter
  · intro haction
    have hbefore := mode_ne_of_startBlockComment hcoherent haction
    exact ⟨(mode_eq_blockComment_iff hbefore).mpr haction, hbefore⟩

/-- The steps that enter block comments raise the number of open ones by one, and those that leave
them lower it. -/
theorem openComments_balance :
    (if t.action = .startBlockComment then 1 else 0) + t.scan.mode.openComments =
      (if t.action = .stopBlockComment then 1 else 0) + t.mode.openComments := by
  by_cases hmode : t.scan.mode = .blockComment
  · have hstart : t.action ≠ .startBlockComment :=
      fun haction => mode_ne_of_startBlockComment hcoherent haction hmode
    rw [mode_of_blockComment hcoherent hmode, if_neg hstart, hmode]
    split <;> rfl
  · have hstop : t.action ≠ .stopBlockComment :=
      fun haction => hmode (mode_of_stopBlockComment hcoherent haction)
    rw [Mode.openComments_of_ne hmode, if_neg hstop]
    by_cases hstart : t.action = .startBlockComment
    · rw [if_pos hstart, (mode_eq_blockComment_iff hmode).mpr hstart]
      rfl
    · rw [if_neg hstart, Mode.openComments_of_ne (mt (mode_eq_blockComment_iff hmode).mp hstart)]

end Step

/-- Over a run the numbers of block comments that are entered and left differ by those that are
open before and after it. -/
theorem Scan.run_openComments (scan : Scan) (symbols : List Symbol) : scan.Coherent →
    (scan.run symbols).steps.countP (·.action = .startBlockComment) + scan.mode.openComments =
      (scan.run symbols).steps.countP (·.action = .stopBlockComment) +
        (scan.run symbols).last.mode.openComments := by
  induction scan, symbols using Scan.run_induction with
  | hnil scan =>
      intro _
      rw [Scan.run_nil]
      rfl
  | hcons t rest ih =>
      intro hcoherent
      have hbalance := Step.openComments_balance hcoherent
      have hlater := ih (Step.coherent_after hcoherent)
      have hmode : t.after.mode = t.mode := rfl
      rw [hmode] at hlater
      rw [Scan.run_cons_steps, Scan.run_cons_last, List.countP_cons, List.countP_cons]
      simp only [decide_eq_true_eq]
      omega

namespace Lexer

/-- The steps that have been taken since the input was last ended, after one more operation.
Each step stands with the number of its line, the last step first. -/
def logged (lexer : Lexer) (log : List (Nat × Step)) : Operation → List (Nat × Step)
  | .finish => []
  | operation =>
      ((lexer.stepsOf operation).map ((lexer.perform operation).line, ·)).reverse ++ log

/-- The steps that have been taken since the input was last ended, after some operations. -/
def loggedAll (lexer : Lexer) (log : List (Nat × Step)) : List Operation → List (Nat × Step)
  | [] => log
  | operation :: later =>
      (lexer.perform operation).loggedAll (lexer.logged log operation) later

/-- Every line that is read is numbered below the bound of positions, also where the numbers go on
from the line before. -/
def Numbered (lexer : Lexer) : List Operation → Prop
  | [] => True
  | operation :: later =>
      (lexer.perform operation).line < Position.bound ∧ (lexer.perform operation).Numbered later

/-- The last step that entered a block comment, with the number of its line. -/
def lastEntered? (log : List (Nat × Step)) : Option (Nat × Step) :=
  log.find? (·.2.action = .startBlockComment)

/-- What a lexer keeps agrees with the steps since the input was last ended: the mode with the
block comments that were entered and left, and the number with the one entered last. -/
structure Accounts (lexer : Lexer) (log : List (Nat × Step)) : Prop where
  coherent : ∀ entry ∈ log, entry.2.scan.Coherent
  balance : log.countP (·.2.action = .startBlockComment) =
    log.countP (·.2.action = .stopBlockComment) + lexer.mode.openComments
  blockLine_eq : ∀ entry, lastEntered? log = some entry → lexer.blockLine = entry.1

/-- Where nothing has been done and no comment is open, there is nothing to account for. -/
theorem accounts_nil {lexer : Lexer} (hmode : lexer.mode ≠ .blockComment) :
    lexer.Accounts [] where
  coherent entry hmem := by cases hmem
  balance := by
    rw [Mode.openComments_of_ne hmode]
    rfl
  blockLine_eq entry hlast := by cases hlast

namespace Accounts

variable {lexer : Lexer} {log : List (Nat × Step)} (haccounts : lexer.Accounts log)

include haccounts

theorem line (number : Nat) (line : List Char) (tokens : TokenList) :
    ({ lexer.readNumbered number line with tokens } : Lexer).Accounts
      (((scanLine lexer.mode line).steps.map (number, ·)).reverse ++ log) where
  coherent entry hmem := by
    rcases List.mem_append.mp hmem with hnew | hold
    · obtain ⟨t, ht, rfl⟩ := List.mem_map.mp (List.mem_reverse.mp hnew)
      exact scanLine_coherent ht
    · exact haccounts.coherent entry hold
  balance := by
    have hrun := Scan.run_openComments (Scan.ofMode lexer.mode) (lineSymbols line)
      (Scan.coherent_ofMode lexer.mode)
    have hmode := (scanLine lexer.mode line).last.mode.openComments_atLineEnd
    have hbefore := haccounts.balance
    simp only [List.countP_append, List.countP_reverse, List.countP_map, Function.comp_def]
    have hlast : ({ lexer.readNumbered number line with tokens } : Lexer).mode =
        (scanLine lexer.mode line).last.mode.atLineEnd := rfl
    rw [hlast, hmode]
    have hofMode : (Scan.ofMode lexer.mode).mode = lexer.mode := rfl
    rw [hofMode] at hrun
    simp only [scanLine]
    omega
  blockLine_eq entry hlast := by
    have hkept : ({ lexer.readNumbered number line with tokens } : Lexer).blockLine =
        if (scanLine lexer.mode line).opensBlock then number else lexer.blockLine := rfl
    rw [lastEntered?, List.find?_append] at hlast
    rw [hkept]
    cases hnew : ((scanLine lexer.mode line).steps.map (number, ·)).reverse.find?
        (·.2.action = .startBlockComment) with
    | some found =>
        -- The line has entered a comment, and all its steps have its number.
        rw [hnew, Option.some_or, Option.some.injEq] at hlast
        have hmem := List.mem_of_find?_eq_some hnew
        obtain ⟨t, ht, hfound⟩ := List.mem_map.mp (List.mem_reverse.mp hmem)
        have haction : t.action = .startBlockComment := by
          simpa [← hfound] using List.find?_some hnew
        have hopens : (scanLine lexer.mode line).opensBlock = true :=
          List.any_eq_true.mpr ⟨t, ht, (Step.opensBlock_iff (scanLine_coherent ht)).mpr haction⟩
        rw [if_pos hopens, ← hlast, ← hfound]
    | none =>
        rw [hnew, Option.none_or] at hlast
        have hopens : ¬ (scanLine lexer.mode line).opensBlock = true := by
          intro hopens
          obtain ⟨t, ht, hstep⟩ := List.any_eq_true.mp hopens
          have hmem := List.mem_reverse.mpr (List.mem_map_of_mem (f := (number, ·)) ht)
          have hnone := List.find?_eq_none.mp hnew _ hmem
          simp [(Step.opensBlock_iff (scanLine_coherent ht)).mp hstep] at hnone
        rw [if_neg hopens]
        exact haccounts.blockLine_eq entry hlast

theorem perform (operation : Operation) :
    (lexer.perform operation).Accounts (lexer.logged log operation) := by
  cases hline : operation.line? with
  | some line =>
      obtain ⟨number, tokens, hperform⟩ := perform_of_line lexer hline
      have hlogged : lexer.logged log operation =
          ((scanLine lexer.mode line).steps.map (number, ·)).reverse ++ log := by
        rw [logged, stepsOf, hline, hperform]
        · rfl
        · rintro rfl
          cases hline
      rw [hlogged, hperform]
      exact haccounts.line number line tokens
  | none =>
      cases operation with
      | read text | readNumbered number text | tokenizeLine text => cases hline
      | pull | takeDiagnostics =>
          exact ⟨haccounts.coherent, haccounts.balance, haccounts.blockLine_eq⟩
      | finish => exact accounts_nil Mode.noConfusion

theorem after (history : List Operation) :
    (lexer.after history).Accounts (lexer.loggedAll log history) := by
  induction history generalizing lexer log with
  | nil => exact haccounts
  | cons operation later ih => exact ih (haccounts.perform operation)

end Accounts

/-- The numbers of the lines that have been read stay in the log. -/
theorem Numbered.loggedAll_lt {lexer : Lexer} {log : List (Nat × Step)} {history : List Operation}
    (hnumbered : lexer.Numbered history) (hlog : ∀ entry ∈ log, entry.1 < Position.bound) :
    ∀ entry ∈ lexer.loggedAll log history, entry.1 < Position.bound := by
  induction history generalizing lexer log with
  | nil => exact hlog
  | cons operation later ih =>
      obtain ⟨hline, hlater⟩ := hnumbered
      refine ih hlater ?_
      have hsteps : ∀ entry ∈ ((lexer.stepsOf operation).map
          ((lexer.perform operation).line, ·)).reverse ++ log, entry.1 < Position.bound := by
        intro entry hmem
        rcases List.mem_append.mp hmem with hnew | hold
        · obtain ⟨t, _, rfl⟩ := List.mem_map.mp (List.mem_reverse.mp hnew)
          exact hline
        · exact hlog entry hold
      cases operation with
      | finish => intro entry hmem; cases hmem
      | read | readNumbered | tokenizeLine | pull | takeDiagnostics => exact hsteps

/-- Whatever has been done with a lexer that numbers its lines within bounds, the end of the input
is an error exactly if more block comments have been entered than left since the input was last
ended.  The error gives the number of the line on which the last opening mark was found.  Either way
the lexer is ready for code and would find nothing open, and its tokens, its diagnostics and its
line are as before. -/
theorem finish_openComment (config : Config) (history : List Operation)
    (hnumbered : (ofConfig config).Numbered history) :
    let lexer := (ofConfig config).after history
    let log := (ofConfig config).loggedAll [] history
    let finished := lexer.finish.2
    (if log.countP (·.2.action = .stopBlockComment) <
          log.countP (·.2.action = .startBlockComment) then
        ∃ number t, number < Position.bound ∧ lastEntered? log = some (number, t) ∧
          t.token? = some ['/', '*'] ∧
          lexer.finish.1 = .error (.unterminated .blockComment number)
      else lexer.finish.1 = .ok ()) ∧
      finished.mode = .normal ∧ finished.state = .start ∧ finished.finish.1 = .ok () ∧
      finished.tokens = lexer.tokens ∧ finished.diagnostics = lexer.diagnostics ∧
      finished.line = lexer.line := by
  intro lexer log finished
  have haccounts : lexer.Accounts log := (accounts_nil Mode.noConfusion).after history
  refine ⟨?_, rfl, rfl, rfl, rfl, rfl, rfl⟩
  have hbalance := haccounts.balance
  by_cases hmode : lexer.mode = .blockComment
  · have hopen : lexer.mode.openComments = 1 := by rw [hmode]; rfl
    have hfinish : lexer.finish.1 = .error (.unterminated .blockComment lexer.blockLine) :=
      if_pos hmode
    rw [if_pos (by omega), hfinish]
    have hentered : 0 < log.countP (·.2.action = .startBlockComment) := by omega
    obtain ⟨entry, hmem, hentry⟩ := List.countP_pos_iff.mp hentered
    have hsome : (lastEntered? log).isSome = true := List.find?_isSome.mpr ⟨entry, hmem, hentry⟩
    obtain ⟨⟨number, t⟩, hlast⟩ := Option.isSome_iff_exists.mp hsome
    have haction : t.action = .startBlockComment := by simpa using List.find?_some hlast
    have hcoherent := haccounts.coherent _ (List.mem_of_find?_eq_some hlast)
    have hnumber : number < Position.bound :=
      hnumbered.loggedAll_lt (fun _ hmem => by cases hmem) _ (List.mem_of_find?_eq_some hlast)
    refine ⟨number, t, hnumber, hlast, Step.token?_of_startBlockComment hcoherent haction, ?_⟩
    rw [haccounts.blockLine_eq _ hlast]
  · rw [Mode.openComments_of_ne hmode] at hbalance
    rw [if_neg (by omega)]
    exact if_neg hmode

/-- A comment is closed and another one opened on the line with the last number there is. -/
theorem finish_openComment_reopened :
    let history : List Operation := [.readNumbered 18446744073709551614 ['/', '*'],
      .tokenizeLine ['*', '/', '/', '/', 'x'], .readNumbered 18446744073709551614 ['/', '*'],
      .read ['*', '/', ' ', '/', '*'], .pull]
    (ofConfig {}).Numbered history ∧ ((ofConfig {}).after history).finish.1 =
      .error (.unterminated .blockComment 18446744073709551615) := by
  intro history
  have hnumbered : (ofConfig {}).Numbered history := by
    simp only [Numbered, history, and_true]
    decide +kernel
  have hopen : ((ofConfig {}).loggedAll [] history).countP (·.2.action = .stopBlockComment) <
      ((ofConfig {}).loggedAll [] history).countP (·.2.action = .startBlockComment) := by
    decide +kernel
  have hnumber : (lastEntered? ((ofConfig {}).loggedAll [] history)).map Prod.fst =
      some 18446744073709551615 := by
    decide +kernel
  have hfinish := (finish_openComment {} history hnumbered).1
  rw [if_pos hopen] at hfinish
  obtain ⟨number, t, _, hlast, _, herror⟩ := hfinish
  obtain rfl : number = 18446744073709551615 := by
    rw [hlast] at hnumber
    exact Option.some.inj hnumber
  exact ⟨hnumbered, herror⟩

end Lexer

end LineLexer
