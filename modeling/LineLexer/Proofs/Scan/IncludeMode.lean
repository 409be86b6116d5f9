import LineLexer.Proofs.Scan.Comments
import LineLexer.Proofs.Scan.Includes
import LineLexer.Proofs.Scan.LongestMatch
import LineLexer.Proofs.Scan.OpenLiterals
/-!
When an include directive is in force.

A scan sets include mode where the directive ends and leaves it in several places: where a literal
is completed from two particular states, and where a comment is entered.  What the mode amounts to
can be told from the tokens alone: the line has delivered a directive and no token after it that
answers it.  The invariant relates the mode of code to the tokens delivered so far.  Nothing has to
be known about the modes of comments, because the way out of a comment delivers a closing mark.
-/

open scoped Computability

namespace LineLexer

open Grammar

/-- A token that answers an include directive: a complete literal in angle brackets or in double
quotes, or a mark of comments. -/
inductive AnswersInclude : List Char → Prop
  | angle {body : List Char} (hbody : '>' ∉ body) : AnswersInclude ('<' :: body ++ ['>'])
  | quoted {token : List Char} (htoken : token ∈ literal .double) : AnswersInclude token
  | mark (mark : CommentMark) : AnswersInclude [mark.first, mark.second]

/-- There is an include directive among the tokens, and no token after the last one answers it. -/
def Unanswered (tokens : List (List Char)) : Prop :=
  ∃ front back, tokens = front ++ includeDirective :: back ∧ includeDirective ∉ back ∧
    ∀ token ∈ back, ¬ AnswersInclude token

/-- A text through its first closing angle bracket; all of it if there is none. -/
def throughBracket (text : List Char) : List Char :=
  text.takeWhile (· != '>') ++ (text.dropWhile (· != '>')).take 1

theorem not_unanswered_nil : ¬ Unanswered [] := by
  rintro ⟨front, back, htokens, _⟩
  cases front <;> cases htokens

/-- What one more token changes. -/
theorem unanswered_concat {tokens : List (List Char)} {token : List Char} :
    Unanswered (tokens ++ [token]) ↔
      token = includeDirective ∨ (Unanswered tokens ∧ ¬ AnswersInclude token) := by
  constructor
  · rintro ⟨front, back, htokens, hlast, hnone⟩
    rcases List.eq_nil_or_concat back with rfl | ⟨others, last, rfl⟩
    · exact Or.inl (List.cons.inj (List.append_inj' htokens rfl).2).1
    · rw [List.concat_eq_append, ← List.cons_append, ← List.append_assoc] at htokens
      obtain ⟨hfront, hsame⟩ := List.append_inj' htokens rfl
      obtain rfl := (List.cons.inj hsame).1
      rw [List.concat_eq_append] at hlast hnone
      refine Or.inr ⟨⟨front, others, hfront, ?_, ?_⟩, hnone token (by simp)⟩
      · exact fun hmem => hlast (List.mem_append_left _ hmem)
      · exact fun other hother => hnone other (List.mem_append_left _ hother)
  · intro hcases
    by_cases hdirective : token = includeDirective
    · exact ⟨tokens, [], by rw [hdirective], List.not_mem_nil, fun other hother => by cases hother⟩
    · obtain ⟨⟨front, back, rfl, hlast, hnone⟩, hanswers⟩ := hcases.resolve_left hdirective
      refine ⟨front, back ++ [token], by simp, ?_, ?_⟩
      · rw [List.mem_append, List.mem_singleton]
        exact fun hmem => hmem.elim hlast fun h => hdirective h.symm
      · intro other hother
        rcases List.mem_append.mp hother with hold | hnew
        · exact hnone other hold
        · rwa [List.mem_singleton.mp hnew]

section Table

/-- In code the directive is read up to its last letter, which is stored as well. -/
theorem Mode.reading_includeDirective : ∀ mode : Mode, mode.startState = .start →
    mode.startState.reading (includeDirective.map (CharClass.classify mode)) = some .directive ∧
      mode.startState.reading (includeDirective.dropLast.map (CharClass.classify mode)) =
        some .directive ∧
      transition .directive (CharClass.classify mode 'e') = .store .directive := by
  decide

theorem transition_directive_not_onTrust : ∀ kind,
    (transition .directive kind).action = .store →
      (transition .directive kind).next = .directive := by
  decide

theorem transition_store_angleLiteral : ∀ state kind,
    (transition state kind).action = .store → (transition state kind).next = .angleLiteral →
      state = .start ∧ kind = .angleOpen ∨ state = .angleLiteral ∧ kind ≠ .angleClose := by
  decide

theorem transition_angleLiteral : ∀ kind, Mode.includeLiteral.presents kind = true →
    kind ≠ .angleClose → kind ≠ .endOfLine →
      transition .angleLiteral kind = .store .angleLiteral := by
  decide

theorem transition_accept_closing : ∀ kind,
    ((transition .angleLiteral kind).action = .accept → kind = .angleClose) ∧
      ((transition .string kind).action = .accept → kind = .doubleQuote) := by
  decide

theorem CharClass.char?_of_literal? : ∀ kind : CharClass, kind.literal? = some .stringLiteral →
    kind.char? = some '"' := by
  decide

/-- Inside a string literal angle brackets are read alike in both modes of code. -/
theorem transition_string_angle : ∀ state, Delimiter.double.Opens state →
    transition state .angleOpen = transition state .less ∧
      transition state .angleClose = transition state .greater := by
  unfold Delimiter.Opens
  decide

/-- Which actions change a mode of code. -/
theorem nextMode_eq_includeLiteral_iff (state : State) (action : Action) :
    (nextMode .normal state action = .includeLiteral ↔ action = .startInclude) ∧
      (nextMode .includeLiteral state action = .includeLiteral ↔
        ¬ ((action = .accept ∧ (state = .angleLiteral ∨ state = .string)) ∨
          action = .startInlineComment ∨ action = .startBlockComment)) := by
  cases action <;> revert state <;> decide

end Table

section Literals

theorem Mode.angle_of_reading {mode : Mode} {kinds : List CharClass}
    (hreading : mode.startState.reading kinds = some .angleLiteral) :
    ∃ others, kinds = .angleOpen :: others ∧ .angleClose ∉ others := by
  induction kinds using List.reverseRecOn with
  | nil =>
      have hstart := mode.startState_isStart
      rw [Option.some.inj hreading] at hstart
      cases hstart
  | append_singleton front kind ih =>
      obtain ⟨middle, hmiddle, hstore, hnext⟩ := State.reading_concat.mp hreading
      rcases transition_store_angleLiteral middle kind hstore hnext with ⟨rfl, rfl⟩ | ⟨rfl, hkind⟩
      · obtain rfl := (Mode.isStart_of_reading hmiddle).mp rfl
        exact ⟨[], rfl, List.not_mem_nil⟩
      · obtain ⟨others, rfl, hothers⟩ := ih hmiddle
        refine ⟨others ++ [kind], rfl, ?_⟩
        rw [List.mem_append, List.mem_singleton]
        exact fun hmem => hmem.elim hothers hkind.symm

/-- After a directive everything up to the next closing bracket is read into the literal. -/
theorem State.reading_angleLiteral {body : List Char} (hbody : '>' ∉ body) :
    State.angleLiteral.reading (body.map (CharClass.classify .includeLiteral)) =
      some .angleLiteral := by
  induction body with
  | nil => rfl
  | cons c rest ih =>
      rw [List.mem_cons, not_or] at hbody
      have hclose : CharClass.classify .includeLiteral c ≠ .angleClose := by
        intro hclose
        exact hbody.1 (CharClass.eq_of_char?_classify (by rw [hclose]; rfl)).symm
      have hmove := transition_angleLiteral _ (CharClass.presents_classify _ c) hclose
        (CharClass.classify_ne_endOfLine _ c)
      rw [List.map_cons, State.reading, hmove, Move.store, if_pos rfl]
      exact ih hbody.2

/-- Inside a string literal the two modes of code read alike. -/
theorem State.reading_quoted {state : State} (hopens : Delimiter.double.Opens state)
    (text : List Char) :
    state.reading (text.map (CharClass.classify .includeLiteral)) = state.readCode text := by
  rw [State.readCode]
  induction text generalizing state with
  | nil => rfl
  | cons c rest ih =>
      have hsame : transition state (CharClass.classify .includeLiteral c) =
          transition state (CharClass.classify .normal c) := by
        obtain ⟨hopen, hclose⟩ := transition_string_angle state hopens
        by_cases hless : c = '<'
        · subst hless
          exact hopen
        · by_cases hgreater : c = '>'
          · subst hgreater
            exact hclose
          · rw [CharClass.classify_includeLiteral ⟨hless, hgreater⟩]
      rw [List.map_cons, List.map_cons, State.reading, State.reading, hsame]
      split
      · rename_i hstore
        exact ih (Delimiter.double.opens_of_store _ _ hopens hstore)
      · rfl

/-- After a directive the texts that lead into a string literal are those of the grammar. -/
theorem Mode.reading_string_iff {text : List Char} :
    Mode.includeLiteral.startState.reading (text.map (CharClass.classify .includeLiteral)) =
      some .string ↔ text ∈ openLiteral .double := by
  have hrest : ∀ rest : List Char, Mode.includeLiteral.startState.reading
      (('"' :: rest).map (CharClass.classify .includeLiteral)) =
        State.start.readCode ('"' :: rest) :=
    fun rest => State.reading_quoted (Or.inl rfl) rest
  constructor
  · intro hreading
    have hopening := Mode.head_of_reading_literal hreading rfl
    cases text with
    | nil => cases hopening
    | cons c rest =>
        obtain rfl : c = '"' := by
          rw [List.map_cons, List.head?_cons, Option.bind_some] at hopening
          have hmark : (CharClass.classify .includeLiteral c).char? = some '"' :=
            CharClass.char?_of_literal? _ hopening
          exact CharClass.eq_of_char?_classify hmark
        rw [hrest] at hreading
        exact mem_spelling_of_readCode hreading
  · intro hopen
    obtain ⟨rest, rfl⟩ := List.head?_eq_some_iff.mp (head?_of_mem_openLiteral hopen)
    exact (hrest rest).trans (readCode_openLiteral hopen)

end Literals

namespace Step

variable {t : Step}

theorem pending_of_startInclude (haction : t.action = .startInclude) :
    t.scan.pending = includeDirective.reverse := by
  have hmove : (step t.scan.state t.kind t.scan.pending).action = .startInclude := haction
  unfold step at hmove
  dsimp only at hmove
  split at hmove
  · rename_i hinclude
    exact hinclude.2.2
  · exact absurd hmove (transition_ne_startInclude t.scan.state t.kind)

theorem action_ne_of_directive (hstate : t.scan.state = .directive)
    (hpending : t.scan.pending = includeDirective.reverse) : t.action ≠ .acceptBack1 := by
  intro hback
  have htable : (transition t.scan.state t.kind).action = .acceptBack1 :=
    (transition_action (by simp [hback])).trans hback
  have hmove : t.move = ⟨.start, .startInclude⟩ := if_pos ⟨hstate, htable, hpending⟩
  rw [Step.action, hmove] at hback
  cases hback

/-- In code a token spells the directive if it starts an include, and only then. -/
theorem startInclude_iff (hcoherent : t.scan.Coherent) (hcode : t.scan.mode.startState = .start) :
    t.action = .startInclude ↔ t.ended.reverse = includeDirective := by
  constructor
  · intro haction
    rw [ended_of_givesBack (Or.inr haction), Scan.text, pending_of_startInclude haction,
      List.reverse_reverse]
  · intro hended
    obtain ⟨hread, hfront, hlast⟩ := Mode.reading_includeDirective t.scan.mode hcode
    rcases ended_cases hcoherent (by decide) hended with
      ⟨front, c, hword, htext, hsymbol, hconsumes, hstore⟩ | ⟨htext, haction⟩ |
      ⟨last, htext, haction⟩
    · -- The last letter of the directive does not complete a token.
      obtain ⟨rfl, hc⟩ := List.append_inj'
        (show includeDirective.dropLast ++ ['e'] = front ++ [c] from hword) rfl
      rw [Scan.Coherent, Scan.kinds, htext, hfront] at hcoherent
      have hkind : t.kind = .classify t.scan.mode 'e' := by
        rw [Step.kind, hsymbol, ← (List.cons.inj hc).1]
        rfl
      rw [← transition_action (ne_startInclude_of_consumes hconsumes), hkind,
        ← Option.some.inj hcoherent, hlast] at hstore
      exact absurd rfl hstore
    · rw [Scan.Coherent, Scan.kinds, htext, hread] at hcoherent
      have hpending : t.scan.pending = includeDirective.reverse := by
        rw [← htext, Scan.text, List.reverse_reverse]
      exact haction.resolve_left (action_ne_of_directive (Option.some.inj hcoherent).symm hpending)
    · rw [Scan.Coherent, Scan.kinds, htext, List.map_append, List.map_singleton,
        State.reading_concat, hread] at hcoherent
      obtain ⟨middle, hmiddle, hstore, hnext⟩ := hcoherent
      obtain rfl := Option.some.inj hmiddle
      rw [transition_directive_not_onTrust _ hstore] at hnext
      have htrust := transition_acceptBack2_onTrust _ _
        ((transition_action (by simp [haction])).trans haction)
      rw [← hnext] at htrust
      cases htrust

variable (hcoherent : t.scan.Coherent) (hmode : t.scan.mode = .includeLiteral)

include hcoherent hmode

/-- The texts of the two literals that are completed after a directive. -/
theorem answersInclude_of_accept (haccept : t.action = .accept)
    (hliteral : t.scan.state = .angleLiteral ∨ t.scan.state = .string) :
    AnswersInclude t.ended.reverse := by
  have hconsumes : t.action.consumes = true := by rw [haccept]; rfl
  obtain ⟨c, hsymbol⟩ := exists_char_of_consumes hconsumes
  have htable := (transition_action (ne_startInclude_of_consumes hconsumes)).trans haccept
  have hkind : t.kind = .classify t.scan.mode c := by
    rw [Step.kind, hsymbol]
    rfl
  obtain ⟨hclose, hquote⟩ := transition_accept_closing t.kind
  rw [ended_of_completes hsymbol hconsumes (by simp [haccept])]
  rw [Scan.Coherent] at hcoherent
  rcases hliteral with hstate | hstate
  · rw [hstate] at htable hcoherent
    obtain rfl : c = '>' :=
      CharClass.eq_of_char?_classify (by rw [← hkind, hclose htable]; rfl)
    obtain ⟨others, hkinds, hbody⟩ := Mode.angle_of_reading hcoherent
    obtain ⟨first, body, htext, hfirst, rfl⟩ := List.map_eq_cons_iff.mp hkinds
    obtain rfl : first = '<' := CharClass.eq_of_char?_classify (by rw [hfirst]; rfl)
    rw [htext]
    apply AnswersInclude.angle
    intro hmem
    apply hbody
    rw [hmode]
    exact List.mem_map_of_mem hmem
  · rw [hstate] at htable hcoherent
    obtain rfl : c = '"' :=
      CharClass.eq_of_char?_classify (by rw [← hkind, hquote htable]; rfl)
    rw [Scan.kinds, hmode, Mode.reading_string_iff] at hcoherent
    exact .quoted (Language.append_mem_mul hcoherent (mem_mark.mpr rfl))

/-- After a directive a token answers it if it completes one of the two literals or enters a
comment. -/
theorem answersInclude_iff : AnswersInclude t.ended.reverse ↔
    (t.action = .accept ∧ (t.scan.state = .angleLiteral ∨ t.scan.state = .string)) ∨
      t.action = .startInlineComment ∨ t.action = .startBlockComment := by
  have hcode : t.scan.mode.startState = .start := by rw [hmode]; rfl
  constructor
  · generalize htoken : t.ended.reverse = token
    intro hanswers
    cases hanswers with
    | angle hbody =>
        rename_i body
        have hread : t.scan.mode.startState.reading
            (('<' :: body).map (CharClass.classify t.scan.mode)) = some .angleLiteral := by
          rw [hmode]
          exact State.reading_angleLiteral hbody
        obtain ⟨hstate, haction, _⟩ :=
          completes_of_ended hcoherent hread (c := '>') (by rw [hmode]; decide) htoken
        rw [hmode] at haction
        exact Or.inl ⟨haction, Or.inl hstate⟩
    | quoted hliteral =>
        obtain ⟨front, hfront, last, hlast, rfl⟩ := Language.mem_mul.mp hliteral
        rw [mem_mark.mp hlast] at htoken
        have hread : t.scan.mode.startState.reading
            (front.map (CharClass.classify t.scan.mode)) = some .string := by
          rw [hmode]
          exact Mode.reading_string_iff.mpr hfront
        obtain ⟨hstate, haction, _⟩ :=
          completes_of_ended hcoherent hread (c := '"') (by rw [hmode]; decide) htoken
        rw [hmode] at haction
        exact Or.inl ⟨haction, Or.inr hstate⟩
    | mark mark =>
        cases mark with
        | inlineOpening =>
            have hstart : t.scan.mode.startState = CommentMark.inlineOpening.start := hcode
            exact Or.inr (Or.inl (mark_of_ended hcoherent hstart htoken))
        | blockOpening =>
            have hstart : t.scan.mode.startState = CommentMark.blockOpening.start := hcode
            exact Or.inr (Or.inr (mark_of_ended hcoherent hstart htoken))
        | blockClosing => exact absurd htoken (ended_ne_blockClosing hcoherent hcode)
  · rintro (⟨haccept, hliteral⟩ | haction | haction)
    · exact answersInclude_of_accept hcoherent hmode haccept hliteral
    · rw [ended_of_mark hcoherent (show t.action = CommentMark.inlineOpening.action from haction)]
      exact .mark .inlineOpening
    · rw [ended_of_mark hcoherent (show t.action = CommentMark.blockOpening.action from haction)]
      exact .mark .blockOpening

end Step

/-- A mode of code is include mode if the directive is unanswered among the tokens, and only
then. -/
def Mode.Tells (mode : Mode) (tokens : List (List Char)) : Prop :=
  mode.startState = .start → (mode = .includeLiteral ↔ Unanswered tokens)

namespace Step

variable {t : Step} {tokens : List (List Char)} (hcoherent : t.scan.Coherent)

include hcoherent

/-- The closing mark that leads out of a block comment answers every directive before it. -/
theorem tells_of_blockComment (hmode : t.scan.mode = .blockComment) :
    t.mode.Tells (tokens ++ t.token?.toList) := by
  intro hcode
  have hnext := mode_of_blockComment hcoherent hmode
  split at hnext
  · rename_i hstop
    have hmark : t.action = CommentMark.blockClosing.action := hstop
    have htoken := token?_eq_some_body hcoherent (by simp [hstop]) (by simp [hstop])
    rw [Step.body, if_neg (by simp [hmode]), ended_of_mark hcoherent hmark] at htoken
    rw [hnext, htoken, Option.toList_some, unanswered_concat]
    constructor
    · intro hinclude
      cases hinclude
    · rintro (hdirective | ⟨_, hanswers⟩)
      · cases hdirective
      · exact absurd (.mark .blockClosing) hanswers
  · rw [hnext] at hcode
    cases hcode

/-- Every step keeps in include mode what the tokens tell about it. -/
theorem tells_after (htells : t.scan.mode.Tells tokens) :
    t.mode.Tells (tokens ++ t.token?.toList) := by
  by_cases hnone : t.action = .store ∨ t.action = .ignore
  · have hstays : t.mode = t.scan.mode := by
      rcases hnone with haction | haction <;> rw [Step.mode, haction] <;> rfl
    rw [(token?_eq_none_iff hcoherent).mpr hnone, hstays, Option.toList_none, List.append_nil]
    exact htells
  rw [not_or] at hnone
  have htoken := token?_eq_some_body hcoherent hnone.1 hnone.2
  cases hmode : t.scan.mode with
  | blockComment => exact tells_of_blockComment hcoherent hmode
  | inlineComment =>
      intro hcode
      rw [mode_of_inlineComment hcoherent hmode] at hcode
      cases hcode
  | normal =>
      intro _
      have hunanswered : ¬ Unanswered tokens := by
        rw [← htells (by rw [hmode]; rfl), hmode]
        decide
      rw [Step.body, if_neg (by simp [hmode])] at htoken
      rw [htoken, Option.toList_some, unanswered_concat, Step.mode, hmode,
        (nextMode_eq_includeLiteral_iff _ _).1, startInclude_iff hcoherent (by rw [hmode]; rfl)]
      exact ⟨Or.inl, fun h => h.resolve_right fun hold => hunanswered hold.1⟩
  | includeLiteral =>
      intro _
      have hunanswered : Unanswered tokens := (htells (by rw [hmode]; rfl)).mp hmode
      have hdirective : t.ended.reverse = includeDirective → ¬ AnswersInclude t.ended.reverse := by
        intro hended
        have haction := (startInclude_iff hcoherent (by rw [hmode]; rfl)).mpr hended
        rw [answersInclude_iff hcoherent hmode, haction]
        simp
      rw [Step.body, if_neg (by simp [hmode])] at htoken
      rw [htoken, Option.toList_some, unanswered_concat, Step.mode, hmode,
        (nextMode_eq_includeLiteral_iff _ _).2, ← answersInclude_iff hcoherent hmode]
      exact ⟨fun hanswers => Or.inr ⟨hunanswered, hanswers⟩, fun h => h.elim hdirective And.right⟩

end Step

/-- What the tokens tell holds before every step of a run. -/
theorem Scan.steps_tell {scan : Scan} {symbols : List Symbol} {tokens : List (List Char)}
    (hcoherent : scan.Coherent) (htells : scan.mode.Tells tokens) {before after : List Step}
    {t : Step} (hsplit : (scan.run symbols).steps = before ++ t :: after) :
    t.scan.mode.Tells (tokens ++ before.filterMap Step.token?) := by
  induction before generalizing scan symbols tokens with
  | nil =>
      obtain ⟨_, rfl, _, _⟩ := exists_of_run_steps hsplit
      rw [List.filterMap_nil, List.append_nil]
      exact htells
  | cons first others ih =>
      obtain ⟨rest, rfl, rfl, hlater⟩ := exists_of_run_steps hsplit
      rw [filterMap_cons_toList, ← List.append_assoc]
      exact ih (Step.coherent_after hcoherent) (Step.tells_after hcoherent htells) hlater

/-- What the tokens tell holds after a run. -/
theorem Scan.run_tells (scan : Scan) (symbols : List Symbol) :
    scan.Coherent → ∀ tokens, scan.mode.Tells tokens →
      (scan.run symbols).last.mode.Tells (tokens ++ (scan.run symbols).tokens) := by
  induction scan, symbols using Scan.run_induction with
  | hnil scan =>
      intro _ tokens htells
      rw [Scan.run_nil]
      simpa [Run.tokens] using htells
  | hcons t rest ih =>
      intro hcoherent tokens htells
      rw [Run.tokens_run_cons, run_cons_last, ← List.append_assoc]
      exact ih (Step.coherent_after hcoherent) _ (Step.tells_after hcoherent htells)

section Angle

/-- A literal in angle brackets is delivered with its closing bracket, or as it is at the end of
the line. -/
theorem Step.token?_of_angleLiteral {t : Step} (hcoherent : t.scan.Coherent)
    (hmode : t.scan.mode = .includeLiteral) (hstate : t.scan.state = .angleLiteral)
    (hsymbol : t.symbol = .endOfLine ∨ t.symbol = .char '>') :
    t.token? = some (t.scan.text ++ t.symbol.chars) := by
  have hinline : t.scan.mode ≠ .inlineComment := by rw [hmode]; decide
  rcases hsymbol with hend | hclose
  · have hcuts : t.Cuts .includeLiteral := ⟨hend, by rw [hstate]; rfl⟩
    rw [token?_eq_some_body hcoherent (by simp [hcuts.action_eq]) (by simp [hcuts.action_eq]),
      Step.body, if_neg hinline, ended_of_givesBack (Or.inl hcuts.action_eq), hend, Symbol.chars,
      List.append_nil]
  · have haction : t.action = .accept := by
      have hkind : t.kind = .angleClose := by
        rw [Step.kind, hclose, hmode]
        rfl
      rw [Step.action, move_eq_of_ne_acceptBack1 (by rw [hstate, hkind]; decide), hstate, hkind]
      rfl
    rw [token?_eq_some_body hcoherent (by simp [haction]) (by simp [haction]), Step.body,
      if_neg hinline, ended_of_completes hclose (by rw [haction]; rfl) (by simp [haction]), hclose,
      Symbol.chars]

/-- After a directive an opening bracket starts a literal that goes on through the next closing
bracket. -/
theorem Scan.AtFront.next_token_angle {scan : Scan} (hfront : scan.AtFront .includeLiteral)
    (left : List Char) :
    (scan.run (lineSymbols ('<' :: left))).tokens.head? = some (throughBracket ('<' :: left)) := by
  have hthrough : throughBracket ('<' :: left) =
      '<' :: left.takeWhile (· != '>') ++ (left.dropWhile (· != '>')).take 1 := rfl
  have hhead := List.head?_dropWhile_not (· != '>') left
  have hclose : '>' ∉ left.takeWhile (· != '>') := by
    intro hmem
    simpa using List.mem_takeWhile_imp hmem
  have hleft := List.takeWhile_append_dropWhile (p := (· != '>')) (l := left)
  rw [hthrough]
  generalize left.takeWhile (· != '>') = body at hclose hleft ⊢
  generalize left.dropWhile (· != '>') = rest at hhead hleft ⊢
  have hreading : scan.state.reading (('<' :: body).map (CharClass.classify scan.mode)) =
      some .angleLiteral := by
    rw [hfront.state_eq, hfront.mode_eq]
    exact State.reading_angleLiteral hclose
  obtain ⟨later, hsame, hstate, hpending, hleads⟩ := leads_of_reading hreading (lineSymbols rest)
  have hmode : later.mode = .includeLiteral := hsame.trans hfront.mode_eq
  have htext : later.text = '<' :: body := by
    rw [text, hpending, hfront.pending_eq, List.append_nil, List.reverse_reverse]
  have hcoherent : later.Coherent := by
    rw [Coherent, kinds, htext, hmode, hstate]
    exact State.reading_angleLiteral hclose
  rw [← hleft, ← List.cons_append, lineSymbols_append, hleads.tokens_eq, List.nil_append]
  cases rest with
  | nil =>
      have htoken := Step.token?_of_angleLiteral (t := ⟨later, .endOfLine⟩) hcoherent hmode hstate
        (Or.inl rfl)
      rw [lineSymbols_nil, Run.tokens_run_cons ⟨later, .endOfLine⟩ [], htoken, htext]
      rfl
  | cons c others =>
      obtain rfl : c = '>' := by simpa using hhead
      have htoken := Step.token?_of_angleLiteral (t := ⟨later, .char '>'⟩) hcoherent hmode hstate
        (Or.inr rfl)
      rw [lineSymbols_cons, Run.tokens_run_cons ⟨later, .char '>'⟩ (lineSymbols others), htoken,
        htext]
      rfl

theorem head?_of_mem_single_mul {p : Char → Bool} {items : Language Char} {text : List Char}
    (htext : text ∈ single p * items) : ∃ c, p c = true ∧ text.head? = some c := by
  obtain ⟨_, ⟨c, hc, rfl⟩, rest, _, rfl⟩ := Language.mem_mul.mp htext
  exact ⟨c, hc, rfl⟩

/-- A token that starts with an opening angle bracket is an operator. -/
theorem Grammar.mem_operators_of_head? {token : List Char} (htoken : token ∈ lexeme)
    (hhead : token.head? = some '<') : token ∈ operators := by
  have hfirst : ∀ {p : Char → Bool} {items : Language Char}, token ∈ single p * items →
      p '<' = true := by
    intro p items hmem
    obtain ⟨c, hc, hother⟩ := head?_of_mem_single_mul hmem
    rw [hhead, Option.some.injEq] at hother
    rw [hother]
    exact hc
  rcases htoken with (((((htext | htext) | htext) | htext) | htext) | htext) | htext
  · exact absurd (hfirst htext) (by decide)
  · rw [directive, mul_assoc] at htext
    exact absurd (hfirst htext) (by decide)
  · rw [number, add_mul, mul_assoc] at htext
    rcases htext with htext | htext
    · exact absurd (hfirst htext) (by decide)
    · exact absurd (hfirst htext) (by decide)
  · rw [literal, openLiteral, mul_assoc] at htext
    exact absurd (hfirst htext) (by decide)
  · rw [literal, openLiteral, mul_assoc] at htext
    exact absurd (hfirst htext) (by decide)
  · exact htext
  · obtain ⟨c, _, rfl⟩ := htext
    rw [Option.some.inj hhead]
    decide

/-- The next token at an opening bracket, in both modes of code. -/
theorem next_token_at_bracket {mode : Mode} {line : List Char} {before after : List Step}
    {t : Step} (hsplit : (scanLine mode line).steps = before ++ t :: after)
    (hpending : t.scan.pending = []) (hsymbol : t.symbol = .char '<') :
    (t.scan.mode = .includeLiteral → ((t :: after).filterMap Step.token?).head? =
        some (throughBracket (line.drop t.scan.offset))) ∧
      (t.scan.mode = .normal → ∃ operator ∈ operators,
        ((t :: after).filterMap Step.token?).head? = some operator ∧
          IsLongestLexeme (line.drop t.scan.offset) operator) := by
  obtain ⟨rest, hcoherent, hwithin, hsteps⟩ := scanLine_steps_within hsplit
  rw [hsymbol] at hwithin
  obtain ⟨others, hleft, rfl⟩ := hwithin.left_of_char
  rw [← hsteps, hsymbol, ← lineSymbols_cons, hleft]
  constructor
  · intro hmode
    have hfront : t.scan.AtFront .includeLiteral :=
      ⟨hmode, (hcoherent.state_eq_startState hpending).trans (by rw [hmode]), hpending⟩
    exact hfront.next_token_angle others
  · intro hmode
    have htext : t.scan.text = [] := Scan.text_eq_nil_iff.mpr hpending
    have hclosed : ¬ Unclosed ('<' :: others) := by
      rintro ⟨delimiter, hhead, _⟩
      cases delimiter <;> cases hhead
    obtain ⟨token, hnext, _, hlongest⟩ := run_first_token t.scan _ hcoherent hmode ('<' :: others)
      rfl fun _ => ⟨'<', others, rfl, rfl⟩
    rw [htext, List.nil_append] at hlongest
    have hlongest := hlongest hclosed
    refine ⟨token, mem_operators_of_head? hlongest.mem ?_, hnext, hlongest⟩
    -- The bracket alone is a token, so that the longest one is not empty.
    have hbracket := hlongest.longest ['<'] ⟨others, rfl⟩ (mem_lexeme_of_mem_operators (by decide))
    obtain ⟨more, hmore⟩ := hlongest.isPrefix
    cases token with
    | nil => cases hbracket
    | cons c token =>
        rw [(List.cons.inj hmore).1]
        rfl

end Angle

/-- On a line that does not start in include mode, a scan of code is in include mode where there is
an unanswered directive among the tokens of the line so far, and nowhere else.  There an opening
bracket starts a literal that goes on through the next closing bracket or to the end of the line;
everywhere else in code it starts an operator.  The next line does not start in include mode. -/
theorem scanLine_includeMode {mode : Mode} (hmode : mode = .normal ∨ mode = .blockComment)
    (line : List Char) :
    (∀ before t after, (scanLine mode line).steps = before ++ t :: after →
      t.scan.mode = .normal ∨ t.scan.mode = .includeLiteral →
      let delivered := before.filterMap Step.token?
      let next := ((t :: after).filterMap Step.token?).head?
      let left := line.drop t.scan.offset
      (t.scan.mode = .includeLiteral ↔ Unanswered delivered) ∧
        (t.scan.pending = [] → t.symbol = .char '<' →
          (Unanswered delivered → next = some (throughBracket left)) ∧
            (¬ Unanswered delivered → ∃ operator ∈ operators,
              next = some operator ∧ IsLongestLexeme left operator))) ∧
      ((scanLine mode line).last.mode = .normal ∨
          (scanLine mode line).last.mode = .includeLiteral →
        ((scanLine mode line).last.mode = .includeLiteral ↔
          Unanswered (scanLine mode line).tokens)) ∧
      carriedMode mode line ≠ .includeLiteral := by
  have hcoherent := Scan.coherent_ofMode mode
  have hcode : ∀ {other : Mode}, other = .normal ∨ other = .includeLiteral →
      other.startState = .start := by
    rintro other (rfl | rfl) <;> rfl
  have htells : (Scan.ofMode mode).mode.Tells [] := by
    have hother : mode ≠ .includeLiteral := by rcases hmode with rfl | rfl <;> decide
    exact fun _ => iff_of_false hother not_unanswered_nil
  refine ⟨?_, ?_, ?_⟩
  · intro before t after hsplit hhere delivered next left
    have hiff : t.scan.mode = .includeLiteral ↔ Unanswered delivered :=
      Scan.steps_tell hcoherent htells hsplit (hcode hhere)
    refine ⟨hiff, fun hpending hsymbol => ?_⟩
    obtain ⟨hliteral, hoperator⟩ := next_token_at_bracket hsplit hpending hsymbol
    exact ⟨fun hunanswered => hliteral (hiff.mpr hunanswered),
      fun hanswered => hoperator (hhere.resolve_right (mt hiff.mp hanswered))⟩
  · intro hlast
    exact Scan.run_tells _ (lineSymbols line) hcoherent [] htells (hcode hlast)
  · intro hcarried
    have houtlasts := (scanLine mode line).last.mode.atLineEnd_outlasts
    rw [show (scanLine mode line).last.mode.atLineEnd = .includeLiteral from hcarried] at houtlasts
    rcases houtlasts with h | h <;> cases h

/-- The second directive of the line is answered by its literal, and the bracket after it is an
operator. -/
theorem scanLine_includeMode_twice :
    let line := "#include #include <a> <<".toList
    let first : Step := ⟨⟨.includeLiteral, .start, [], 9, 18⟩, .char '<'⟩
    let second : Step := ⟨⟨.normal, .start, [], 18, 22⟩, .char '<'⟩
    (∃ before after, (scanLine .normal line).steps = before ++ first :: after ∧
      Unanswered (before.filterMap Step.token?) ∧
      ((first :: after).filterMap Step.token?).head? = some ['<', 'a', '>']) ∧
    (∃ before after, (scanLine .normal line).steps = before ++ second :: after ∧
      ¬ Unanswered (before.filterMap Step.token?) ∧
      ∃ operator ∈ operators, ((second :: after).filterMap Step.token?).head? = some operator ∧
        IsLongestLexeme ['<', '<'] operator) := by
  intro line first second
  have hfirst : (scanLine .normal line).steps = (scanLine .normal line).steps.take 20 ++
      first :: (scanLine .normal line).steps.drop 21 := by
    decide +kernel
  have hsecond : (scanLine .normal line).steps = (scanLine .normal line).steps.take 24 ++
      second :: (scanLine .normal line).steps.drop 25 := by
    decide +kernel
  obtain ⟨hsteps, _⟩ := scanLine_includeMode (Or.inl rfl) line
  obtain ⟨hinclude, hliteral⟩ := hsteps _ _ _ hfirst (Or.inr rfl)
  obtain ⟨hcode, hoperator⟩ := hsteps _ _ _ hsecond (Or.inl rfl)
  have hunanswered := hinclude.mp rfl
  have hanswered := mt hcode.mpr (by decide)
  exact ⟨⟨_, _, hfirst, hunanswered, (hliteral rfl rfl).1 hunanswered⟩,
    ⟨_, _, hsecond, hanswered, (hoperator rfl rfl).2 hanswered⟩⟩

end LineLexer
