import LineLexer.Proofs.Lexer.Pulling
/-!
Two loops that drain a lexer.

One pulls until a pull fails and keeps the texts.  The other asks before each pull whether the
lexer is complete, adds what it pulls to a list of tokens and leaves off at a failure.  Neither
knows how many tokens there are.  Both end, on a line without tokens at once, and both have pulled
the texts that were left, as `Lexer.drain` does with a bound on their number.
-/

namespace LineLexer

namespace Lexer

/-- The run of a loop that pulls until a pull fails, with the texts and the lexer that is left. -/
inductive PullsAll : Lexer → List String × Lexer → Prop
  | stop {lexer next : Lexer} {error : LexError} (hpull : lexer.pull = (.error error, next)) :
      PullsAll lexer ([], next)
  | step {lexer next last : Lexer} {text : String} {texts : List String}
      (hpull : lexer.pull = (.ok text, next)) (hlater : PullsAll next (texts, last)) :
      PullsAll lexer (text :: texts, last)

/-- The run of a loop that pulls into a list of tokens until the lexer is complete or a pull
fails. -/
inductive FillsUp : Lexer → TokenList → Lexer × TokenList → Prop
  | complete {lexer : Lexer} {tokens : TokenList} (hcomplete : lexer.isComplete = true) :
      FillsUp lexer tokens (lexer, tokens)
  | leave {lexer next : Lexer} {tokens : TokenList} {error : LexError}
      (hcomplete : lexer.isComplete = false) (hpull : lexer.pull = (.error error, next)) :
      FillsUp lexer tokens (next, tokens)
  | step {lexer next : Lexer} {tokens : TokenList} {text : String} {outcome : Lexer × TokenList}
      (hcomplete : lexer.isComplete = false) (hpull : lexer.pull = (.ok text, next))
      (hlater : FillsUp next (tokens.append text).2 outcome) :
      FillsUp lexer tokens outcome

/-- The loop has one run at most, as each pull has one outcome. -/
theorem PullsAll.unique {lexer : Lexer} {outcome other : List String × Lexer}
    (hrun : lexer.PullsAll outcome) (hother : lexer.PullsAll other) : other = outcome := by
  induction hrun generalizing other with
  | stop hpull =>
      cases hother with
      | stop hagain =>
          cases hpull.symm.trans hagain
          rfl
      | step hagain _ => cases hpull.symm.trans hagain
  | step hpull _ ih =>
      cases hother with
      | stop hagain => cases hpull.symm.trans hagain
      | step hagain hlater =>
          cases hpull.symm.trans hagain
          cases ih hlater
          rfl

theorem FillsUp.unique {lexer : Lexer} {tokens : TokenList} {outcome other : Lexer × TokenList}
    (hrun : lexer.FillsUp tokens outcome) (hother : lexer.FillsUp tokens other) :
    other = outcome := by
  induction hrun generalizing other with
  | complete hcomplete =>
      cases hother with
      | complete _ => rfl
      | leave hopen _ | step hopen _ _ => cases hopen.symm.trans hcomplete
  | leave hopen hpull =>
      cases hother with
      | complete hcomplete => cases hopen.symm.trans hcomplete
      | leave _ hagain =>
          cases hpull.symm.trans hagain
          rfl
      | step _ hagain _ => cases hpull.symm.trans hagain
  | step hopen hpull _ ih =>
      cases hother with
      | complete hcomplete => cases hopen.symm.trans hcomplete
      | leave _ hagain => cases hpull.symm.trans hagain
      | step _ hagain hlater =>
          cases hpull.symm.trans hagain
          exact ih hlater

namespace Awaits

variable {lexer : Lexer} {texts : List String} {count : Nat}

/-- With a bound that is large enough the loop does what pulling under the bound does. -/
theorem pullsAll (hawaits : lexer.Awaits texts) (hcount : texts.length ≤ count) :
    lexer.PullsAll (pullMany count lexer) := by
  induction count generalizing lexer texts with
  | zero =>
      obtain rfl : texts = [] := List.length_eq_zero_iff.mp (Nat.le_zero.mp hcount)
      exact .stop hawaits.pull_of_nil
  | succ count ih =>
      cases texts with
      | nil =>
          simp only [pullMany, hawaits.pull_of_nil]
          exact .stop hawaits.pull_of_nil
      | cons text texts =>
          obtain ⟨hanswer, hnext⟩ := hawaits.pull_of_cons
          have hpull : lexer.pull = (.ok text, lexer.pull.2) := by rw [← hanswer]
          have hlater := ih hnext (Nat.le_of_succ_le_succ hcount)
          unfold pullMany
          rw [hpull]
          exact .step hpull hlater

theorem fillsUp (hawaits : lexer.Awaits texts) (hcount : texts.length ≤ count)
    (tokens : TokenList) :
    lexer.FillsUp tokens
      ((pullMany count lexer).2, tokens.extend (pullMany count lexer).1) := by
  induction count generalizing lexer texts tokens with
  | zero =>
      obtain rfl : texts = [] := List.length_eq_zero_iff.mp (Nat.le_zero.mp hcount)
      exact .complete (hawaits.isComplete_iff.mpr rfl)
  | succ count ih =>
      cases texts with
      | nil =>
          simp only [pullMany, hawaits.pull_of_nil]
          exact .complete (hawaits.isComplete_iff.mpr rfl)
      | cons text texts =>
          obtain ⟨hanswer, hnext⟩ := hawaits.pull_of_cons
          have hpull : lexer.pull = (.ok text, lexer.pull.2) := by rw [← hanswer]
          have hopen : lexer.isComplete = false := by
            simp [Bool.eq_false_iff, hawaits.isComplete_iff]
          have hlater := ih hnext (Nat.le_of_succ_le_succ hcount) (tokens.append text).2
          unfold pullMany
          rw [hpull]
          exact .step hopen hpull hlater

end Awaits

section Works

variable {config : Config} {lexer : Lexer}

/-- Pulling until a pull fails is draining. -/
theorem Works.pullsAll_iff (hworks : lexer.Works config) {outcome : List String × Lexer} :
    lexer.PullsAll outcome ↔ outcome = lexer.drain := by
  obtain ⟨texts, hawaits, hlength⟩ := hworks.awaits
  have hdrain : lexer.PullsAll lexer.drain := hawaits.pullsAll hlength
  constructor
  · exact hdrain.unique
  · rintro rfl
    exact hdrain

/-- Pulling into a list until the lexer is complete is draining and adding the texts to the
list. -/
theorem Works.fillsUp_iff (hworks : lexer.Works config) {tokens : TokenList}
    {outcome : Lexer × TokenList} :
    lexer.FillsUp tokens outcome ↔ outcome = (lexer.drain.2, tokens.extend lexer.drain.1) := by
  obtain ⟨texts, hawaits, hlength⟩ := hworks.awaits
  have hdrain : lexer.FillsUp tokens (lexer.drain.2, tokens.extend lexer.drain.1) :=
    hawaits.fillsUp hlength tokens
  constructor
  · exact hdrain.unique
  · rintro rfl
    exact hdrain

end Works

end Lexer

end LineLexer
