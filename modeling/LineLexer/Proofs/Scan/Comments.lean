import LineLexer.Proofs.Scan.Marks
import LineLexer.Proofs.TokenList.Removal
/-!
Comments as the scan sees them and as their removal sees them.

The scan knows of every token whether it belongs to a comment, from its mode and its actions.
Removal sees the texts of the tokens only and looks for marks.  Both keep track of the comment
they are in, and they stay in step: whatever mode a scan is in, removal is in the comment of
that mode.
-/

namespace LineLexer

open CommentKind

/-- The kinds of comments, in the order in which their marks are looked for. -/
abbrev CommentKind.both : List CommentKind :=
  [.inline, .block]

/-- The comment that a mode stands for. -/
def Mode.comment? : Mode → Option CommentKind
  | .blockComment => some .block
  | .inlineComment => some .inline
  | .normal | .includeLiteral => none

namespace Step

/-- Whether the token of a step belongs to a comment: it is one of the marks, or is ended in a
mode of comments. -/
def isComment (t : Step) : Bool :=
  t.action == .startInlineComment || t.action == .startBlockComment ||
    t.action == .stopBlockComment || t.scan.mode == .inlineComment ||
      t.scan.mode == .blockComment

/-- The text of the token of a step, with the answer whether it belongs to a comment. -/
def labelled? (t : Step) : Option (String × Bool) :=
  t.token?.map fun token => (String.ofList token, t.isComment)

/-- The kind of comment that a step enters. -/
def opening? (t : Step) : Option CommentKind :=
  match t.action with
  | .startInlineComment => some .inline
  | .startBlockComment => some .block
  | _ => none

end Step

theorem CommentKind.opened?_both (text : String) : opened? both text =
    if text = "//" then some .inline else if text = "/*" then some .block else none := by
  by_cases hinline : text = "//"
  · subst hinline
    rfl
  · by_cases hblock : text = "/*"
    · subst hblock
      rfl
    · have hfirst : ("//" == text) = false := by simpa using Ne.symm hinline
      have hsecond : ("/*" == text) = false := by simpa using Ne.symm hblock
      simp [opened?, CommentKind.opening, hinline, hblock, hfirst, hsecond]

/-- The states from which the actions of code are taken belong to the modes of code. -/
theorem Mode.startState_of_owns : ∀ mode state, Mode.owns mode state = true →
    state = .slash ∨ state = .directive → mode.startState = .start := by
  decide

theorem Mode.eq_blockComment_of_owns : ∀ mode, Mode.owns mode .commentStar = true →
    mode = .blockComment := by
  decide

namespace Step

variable {t : Step} (hcoherent : t.scan.Coherent)

include hcoherent

/-- Comments and includes are entered in code. -/
theorem startState_of_enters (haction : t.action = .startInlineComment ∨
    t.action = .startBlockComment ∨ t.action = .startInclude) :
    t.scan.mode.startState = .start := by
  apply Mode.startState_of_owns t.scan.mode t.scan.state hcoherent.owns_state
  rcases haction with haction | haction | haction
  · exact Or.inl (state_of_mark (show t.action = CommentMark.inlineOpening.action from haction)).1
  · exact Or.inl (state_of_mark (show t.action = CommentMark.blockOpening.action from haction)).1
  · exact Or.inr (move_of_startInclude haction).2.1

theorem mode_of_stopBlockComment (haction : t.action = .stopBlockComment) :
    t.scan.mode = .blockComment := by
  have hmark : t.action = CommentMark.blockClosing.action := haction
  have howns := hcoherent.owns_state
  rw [(state_of_mark hmark).1] at howns
  exact Mode.eq_blockComment_of_owns t.scan.mode howns

theorem comment?_mode_of_code (hcode : t.scan.mode.comment? = none) :
    t.mode.comment? = t.opening? := by
  have hstays : t.action ≠ .stopBlockComment := by
    intro haction
    rw [mode_of_stopBlockComment hcoherent haction] at hcode
    cases hcode
  unfold Step.mode opening?
  cases haction : t.action with
  | stopBlockComment => exact absurd haction hstays
  | accept =>
      rw [nextMode]
      split
      · rfl
      · exact hcode
  | startInlineComment | startBlockComment | startInclude => rfl
  | _ => exact hcode

theorem isComment_of_code (hcode : t.scan.mode.comment? = none) :
    t.isComment = t.opening?.isSome := by
  have hstays : t.action ≠ .stopBlockComment := by
    intro haction
    rw [mode_of_stopBlockComment hcoherent haction] at hcode
    cases hcode
  unfold isComment opening?
  cases hmode : t.scan.mode with
  | inlineComment | blockComment => simp [hmode, Mode.comment?] at hcode
  | normal | includeLiteral =>
      cases haction : t.action with
      | stopBlockComment => exact absurd haction hstays
      | _ => rfl

theorem mode_of_inlineComment (hmode : t.scan.mode = .inlineComment) :
    t.mode = .inlineComment := by
  have henters := startState_of_enters hcoherent
  rw [hmode] at henters
  unfold Step.mode
  rw [hmode]
  cases haction : t.action with
  | startInlineComment | startBlockComment | startInclude =>
      exact absurd (henters (by simp [haction])) (by decide)
  | _ => rfl

theorem mode_of_blockComment (hmode : t.scan.mode = .blockComment) :
    t.mode = if t.action = .stopBlockComment then .normal else .blockComment := by
  have henters := startState_of_enters hcoherent
  rw [hmode] at henters
  unfold Step.mode
  rw [hmode]
  cases haction : t.action with
  | startInlineComment | startBlockComment | startInclude =>
      exact absurd (henters (by simp [haction])) (by decide)
  | _ => rfl

/-- A step that delivers no token stays in its comment and opens none. -/
theorem comment?_of_token?_eq_none (htoken : t.token? = none) :
    t.mode.comment? = t.scan.mode.comment? ∧ t.opening? = none := by
  rcases (token?_eq_none_iff hcoherent).mp htoken with haction | haction
  · simp [Step.mode, opening?, haction, nextMode]
  · simp [Step.mode, opening?, haction, nextMode]

variable {token : List Char} (htoken : t.token? = some token)

include htoken

/-- A token is no line terminator, because it does not start with white space. -/
theorem ofList_ne_lineTerminator : String.ofList token ≠ lineTerminator := by
  intro htext
  obtain ⟨c, rest, rfl, hblank⟩ := solid_of_token? hcoherent htoken
  have hchars : c :: rest = ['\n'] := String.ofList_injective htext
  rw [(List.cons.inj hchars).1] at hblank
  exact absurd hblank (by decide)

theorem eq_ended_of_token? (hmode : t.scan.mode ≠ .inlineComment) : token = t.ended.reverse := by
  obtain ⟨rfl, _⟩ := eq_body_of_token? hcoherent htoken
  rw [Step.body, if_neg hmode]

/-- In the modes of a mark a token has the text of the mark if the action of the mark ends
it. -/
theorem ofList_eq_mark_iff {mark : CommentMark} (hmode : t.scan.mode.startState = mark.start) :
    String.ofList token = String.ofList [mark.first, mark.second] ↔ t.action = mark.action := by
  have hinline : t.scan.mode ≠ .inlineComment := by
    intro hmode'
    rw [hmode'] at hmode
    cases mark <;> cases hmode
  rw [String.ofList_inj, eq_ended_of_token? hcoherent htoken hinline]
  exact ⟨mark_of_ended hcoherent hmode, ended_of_mark hcoherent⟩

/-- In code the texts of the marks are those of the steps that enter comments. -/
theorem opened?_ofList (hmode : t.scan.mode.startState = .start) :
    opened? both (String.ofList token) = t.opening? := by
  have hinline : String.ofList token = "//" ↔ t.action = .startInlineComment :=
    ofList_eq_mark_iff hcoherent htoken (show _ = CommentMark.inlineOpening.start from hmode)
  have hblock : String.ofList token = "/*" ↔ t.action = .startBlockComment :=
    ofList_eq_mark_iff hcoherent htoken (show _ = CommentMark.blockOpening.start from hmode)
  rw [opened?_both]
  by_cases hfirst : t.action = .startInlineComment
  · rw [if_pos (hinline.mpr hfirst), opening?, hfirst]
  rw [if_neg (mt hinline.mp hfirst)]
  by_cases hsecond : t.action = .startBlockComment
  · rw [if_pos (hblock.mpr hsecond), opening?, hsecond]
  rw [if_neg (mt hblock.mp hsecond), opening?]
  cases haction : t.action with
  | startInlineComment => exact absurd haction hfirst
  | startBlockComment => exact absurd haction hsecond
  | _ => rfl

/-- Removal takes a token for part of a comment if the scan does. -/
theorem covers_ofList :
    covers both t.scan.mode.comment? (String.ofList token) = t.isComment := by
  have hterminator := ofList_ne_lineTerminator hcoherent htoken
  cases hmode : t.scan.mode with
  | normal | includeLiteral =>
      rw [isComment_of_code hcoherent (by rw [hmode]; rfl)]
      simp only [Mode.comment?, covers]
      rw [opened?_ofList hcoherent htoken (by rw [hmode]; rfl)]
  | inlineComment =>
      simp [Mode.comment?, covers, CommentKind.closing, hterminator, isComment, hmode]
  | blockComment =>
      simp [Mode.comment?, covers, CommentKind.ownsClosing, isComment, hmode]

/-- After a token removal is in the comment of the mode. -/
theorem follow_ofList :
    follow both t.scan.mode.comment? (String.ofList token) = t.mode.comment? := by
  have hterminator := ofList_ne_lineTerminator hcoherent htoken
  cases hmode : t.scan.mode with
  | normal | includeLiteral =>
      rw [comment?_mode_of_code hcoherent (by rw [hmode]; rfl)]
      simp only [Mode.comment?, follow]
      rw [opened?_ofList hcoherent htoken (by rw [hmode]; rfl)]
  | inlineComment =>
      rw [mode_of_inlineComment hcoherent hmode]
      simp [Mode.comment?, follow, CommentKind.closing, hterminator]
  | blockComment =>
      have hclosing : String.ofList token = "*/" ↔ t.action = .stopBlockComment :=
        ofList_eq_mark_iff hcoherent htoken
          (show _ = CommentMark.blockClosing.start by rw [hmode]; rfl)
      rw [mode_of_blockComment hcoherent hmode]
      simp only [Mode.comment?, follow, CommentKind.closing, hclosing]
      split <;> rfl

theorem opens_ofList :
    opens both t.scan.mode.comment? (String.ofList token) = t.opening? := by
  have henters := startState_of_enters hcoherent
  cases hmode : t.scan.mode with
  | normal | includeLiteral =>
      simp only [Mode.comment?, opens]
      exact opened?_ofList hcoherent htoken (by rw [hmode]; rfl)
  | inlineComment | blockComment =>
      rw [hmode] at henters
      simp only [Mode.comment?, opens, opening?]
      cases haction : t.action with
      | startInlineComment | startBlockComment =>
          exact absurd (henters (by simp [haction])) (by decide)
      | _ => rfl

end Step

/-- A token that belongs to no comment is the whole of what is ended in code. -/
theorem Step.ended_of_labelled? {t : Step} (hcoherent : t.scan.Coherent) {text : String}
    (hlabelled : t.labelled? = some (text, false)) :
    t.scan.mode.startState = .start ∧ text = String.ofList t.ended.reverse := by
  obtain ⟨token, htoken, hlabel⟩ := Option.map_eq_some_iff.mp hlabelled
  obtain ⟨rfl, hcomment⟩ := Prod.mk.inj hlabel
  have hcode : t.scan.mode.startState = .start := by
    unfold Step.isComment at hcomment
    cases hmode : t.scan.mode <;> simp [hmode, Mode.startState] at hcomment ⊢
  have hinline : t.scan.mode ≠ .inlineComment := by
    intro hmode
    rw [hmode] at hcode
    cases hcode
  exact ⟨hcode, congrArg String.ofList (Step.eq_ended_of_token? hcoherent htoken hinline)⟩

/-- The tokens of a run with the answers whether they belong to comments. -/
def Run.labelled (run : Run) : List (String × Bool) :=
  run.steps.filterMap Step.labelled?

def Run.openings (run : Run) : List CommentKind :=
  run.steps.filterMap Step.opening?

theorem Run.labelled_run_cons (t : Step) (rest : List Symbol) :
    (t.scan.run (t.symbol :: rest)).labelled =
      t.labelled?.toList ++ (t.after.run (t.unread ++ rest)).labelled := by
  rw [Run.labelled, Scan.run_cons_steps, filterMap_cons_toList]
  rfl

theorem Run.openings_run_cons (t : Step) (rest : List Symbol) :
    (t.scan.run (t.symbol :: rest)).openings =
      t.opening?.toList ++ (t.after.run (t.unread ++ rest)).openings := by
  rw [Run.openings, Scan.run_cons_steps, filterMap_cons_toList]
  rfl

/-- Removal takes labelled tokens for what their labels say, opens the given comments on the
way, and gets from one comment to another. -/
inductive InStep :
    Option CommentKind → List (String × Bool) → List CommentKind → Option CommentKind → Prop
  | nil (opened : Option CommentKind) : InStep opened [] [] opened
  | cons {opened last : Option CommentKind} {text : String} {label : Bool}
      {rest : List (String × Bool)} {entered : List CommentKind}
      (hcovers : covers both opened text = label)
      (hrest : InStep (follow both opened text) rest entered last) :
      InStep opened ((text, label) :: rest) ((opens both opened text).toList ++ entered) last

namespace InStep

variable {opened middle last : Option CommentKind} {front back : List (String × Bool)}
  {entered later : List CommentKind}

theorem append (hfront : InStep opened front entered middle)
    (hback : InStep middle back later last) :
    InStep opened (front ++ back) (entered ++ later) last := by
  induction hfront with
  | nil opened => exact hback
  | cons hcovers _ ih =>
      rw [List.append_assoc]
      exact .cons hcovers (ih hback)

/-- What survives is what the labels leave. -/
theorem survivors_eq (hstep : InStep opened front entered last) :
    survivors both Prod.fst opened front = front.filter (!·.2) := by
  induction hstep with
  | nil opened => rfl
  | @cons _ _ _ label _ _ hcovers _ ih =>
      rw [survivors, hcovers, ih]
      cases label <;> rfl

theorem followAll_eq (hstep : InStep opened front entered last) :
    followAll both Prod.fst opened front = last := by
  induction hstep with
  | nil opened => rfl
  | cons _ _ ih => rw [followAll, List.foldl_cons]; exact ih

theorem openings_eq (hstep : InStep opened front entered last) :
    CommentKind.openings both Prod.fst opened front = entered := by
  induction hstep with
  | nil opened => rfl
  | cons _ _ ih => rw [CommentKind.openings, ih]

end InStep

/-- Removal stays in step with a step of a scan. -/
theorem Step.inStep {t : Step} (hcoherent : t.scan.Coherent) :
    InStep t.scan.mode.comment? t.labelled?.toList t.opening?.toList t.mode.comment? := by
  rw [Step.labelled?]
  cases htoken : t.token? with
  | none =>
      obtain ⟨hstays, hopening⟩ := Step.comment?_of_token?_eq_none hcoherent htoken
      rw [hstays, hopening]
      exact .nil _
  | some token =>
      rw [← Step.opens_ofList hcoherent htoken, ← Step.follow_ofList hcoherent htoken]
      have hlast := InStep.cons (Step.covers_ofList hcoherent htoken) (.nil _)
      rw [List.append_nil] at hlast
      exact hlast

/-- Removal stays in step with a scan: it is in the comment of the mode after a run if it was
in the one before. -/
theorem run_inStep (scan : Scan) (symbols : List Symbol) :
    scan.Coherent → InStep scan.mode.comment? (scan.run symbols).labelled
      (scan.run symbols).openings (scan.run symbols).last.mode.comment? := by
  induction scan, symbols using Scan.run_induction with
  | hnil scan =>
      intro _
      rw [Scan.run_nil]
      exact .nil _
  | hcons t rest ih =>
      intro hcoherent
      rw [Run.labelled_run_cons, Run.openings_run_cons, Scan.run_cons_last]
      exact (Step.inStep hcoherent).append (ih (Step.coherent_after hcoherent))

/-- Removal is in step before every step of a run. -/
theorem steps_inStep {scan : Scan} {symbols : List Symbol} (hcoherent : scan.Coherent)
    {before after : List Step} {t : Step}
    (hsplit : (scan.run symbols).steps = before ++ t :: after) :
    InStep scan.mode.comment? (before.filterMap Step.labelled?)
      (before.filterMap Step.opening?) t.scan.mode.comment? := by
  induction before generalizing scan symbols with
  | nil =>
      obtain ⟨_, rfl, _, _⟩ := Scan.exists_of_run_steps hsplit
      exact .nil _
  | cons first others ih =>
      obtain ⟨rest, rfl, rfl, hlater⟩ := Scan.exists_of_run_steps hsplit
      rw [filterMap_cons_toList, filterMap_cons_toList]
      exact (Step.inStep hcoherent).append (ih (Step.coherent_after hcoherent) hlater)

/-- Without the labels the tokens of some steps are what the steps deliver. -/
theorem map_fst_labelled? (steps : List Step) :
    (steps.filterMap Step.labelled?).map Prod.fst =
      (steps.filterMap Step.token?).map String.ofList := by
  rw [List.map_filterMap, List.map_filterMap]
  congr 1
  funext t
  rw [Step.labelled?, Option.map_map]
  rfl

/-- Before a step in code removal is in code, too. -/
theorem followAll_tokens_eq_none {mode : Mode} {line : List Char} {before after : List Step}
    {t : Step} (hmode : mode.comment? = none)
    (hsplit : (scanLine mode line).steps = before ++ t :: after)
    (hcode : t.scan.mode.comment? = none) :
    followAll both id none ((before.filterMap Step.token?).map String.ofList) = none := by
  have hstep := steps_inStep (Scan.coherent_ofMode mode) hsplit
  rw [hcode] at hstep
  have hopened : (Scan.ofMode mode).mode.comment? = none := hmode
  rw [hopened] at hstep
  rw [← map_fst_labelled?, followAll_map]
  exact hstep.followAll_eq

theorem Run.map_fst_labelled (run : Run) :
    run.labelled.map Prod.fst = run.tokens.map String.ofList :=
  map_fst_labelled? run.steps

/-- The labelled tokens of a line and its terminator, which belongs to a comment if the next
line starts in a block comment. -/
def labelledLine (mode : Mode) (line : List Char) : List (String × Bool) :=
  (scanLine mode line).labelled ++
    [(lineTerminator, carriedMode mode line == .blockComment)]

/-- At the end of a line removal leaves inline comments like the scan does. -/
theorem lineTerminator_inStep (mode : Mode) :
    InStep mode.comment? [(lineTerminator, mode.atLineEnd == .blockComment)] []
      mode.atLineEnd.comment? := by
  cases mode with
  | normal | includeLiteral | inlineComment => exact .cons rfl (.nil none)
  | blockComment => exact .cons rfl (.nil (some .block))

theorem line_inStep (mode : Mode) (line : List Char) :
    InStep mode.comment? (labelledLine mode line) (scanLine mode line).openings
      (carriedMode mode line).comment? := by
  have hrun := run_inStep (Scan.ofMode mode) (lineSymbols line) (Scan.coherent_ofMode mode)
  have hline := hrun.append (lineTerminator_inStep (scanLine mode line).last.mode)
  rw [List.append_nil] at hline
  exact hline

end LineLexer
