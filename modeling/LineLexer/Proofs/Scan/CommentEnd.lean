import LineLexer.Proofs.Scan.Comments
import LineLexer.Proofs.Scan.Loop
import LineLexer.Proofs.Scan.Respacing
/-!
Where a block comment ends.

A scan cuts the text of a block comment into words, stars and quoted spans.  It looks at a star
again if no slash follows it and keeps apart five states, but all that matters for the end of the
comment is whether a quoted span is open.  A reader that follows just this (`Quoting`) stops at the
first closing mark outside of quoted spans, and a step of the scan that does not end the comment
leaves it at the same mark (`Step.StaysInComment.afterMark?_after`).  No quoted span outlasts its
line: a scan takes up the comment outside of quoted spans on the next one.
-/

namespace LineLexer

/-- Where a reader of a block comment stands with respect to the quoted spans. -/
inductive Quoting where
  | outside
  | inside
  /-- Inside, right after a backslash. -/
  | escaped
deriving DecidableEq

namespace Quoting

/-- Reads a character.  A backslash protects the character after it inside of a span only. -/
def next (quoting : Quoting) (c : Char) : Quoting :=
  match quoting with
  | .outside => if c = '"' then .inside else .outside
  | .inside => if c = '"' then .outside else if c = '\\' then .escaped else .inside
  | .escaped => .inside

/-- Reads a text. -/
def after (quoting : Quoting) (text : List Char) : Quoting :=
  text.foldl next quoting

/-- A closing mark outside of quoted spans parts a text. -/
structure MarkAt (quoting : Quoting) (text front back : List Char) : Prop where
  text_eq : text = front ++ '*' :: '/' :: back
  outside : quoting.after front = .outside

/-- It is the first closing mark outside of quoted spans that parts a text. -/
structure FirstMarkAt (quoting : Quoting) (text front back : List Char) : Prop
    extends quoting.MarkAt text front back where
  first : ∀ other later, quoting.MarkAt text other later → front.length ≤ other.length

/-- Reads a text up to its first closing mark outside of quoted spans and returns what follows the
mark. -/
def afterMark? (quoting : Quoting) : List Char → Option (List Char)
  | [] => none
  | c :: rest =>
      if quoting = .outside ∧ c = '*' ∧ rest.head? = some '/' then some rest.tail
      else (quoting.next c).afterMark? rest

theorem markAt_cons_iff {quoting : Quoting} {c : Char} {rest front back : List Char} :
    quoting.MarkAt (c :: rest) front back ↔
      front = [] ∧ quoting = .outside ∧ c = '*' ∧ rest = '/' :: back ∨
        ∃ others, front = c :: others ∧ (quoting.next c).MarkAt rest others back := by
  constructor
  · rintro ⟨htext, houtside⟩
    cases front with
    | nil =>
        obtain ⟨rfl, rfl⟩ := List.cons.inj htext
        exact Or.inl ⟨rfl, houtside, rfl, rfl⟩
    | cons d others =>
        obtain ⟨rfl, hrest⟩ := List.cons.inj htext
        exact Or.inr ⟨others, rfl, hrest, houtside⟩
  · rintro (⟨rfl, rfl, rfl, rfl⟩ | ⟨others, rfl, hrest, houtside⟩)
    · exact ⟨rfl, rfl⟩
    · exact ⟨by rw [hrest]; rfl, houtside⟩

theorem firstMarkAt_of_afterMark? {quoting : Quoting} {text back : List Char}
    (hmark : quoting.afterMark? text = some back) :
    ∃ front, quoting.FirstMarkAt text front back := by
  induction text generalizing quoting with
  | nil => cases hmark
  | cons c rest ih =>
      rw [afterMark?] at hmark
      split at hmark
      · rename_i hhere
        obtain ⟨houtside, rfl, hslash⟩ := hhere
        obtain ⟨later, rfl⟩ := List.head?_eq_some_iff.mp hslash
        obtain rfl := Option.some.inj hmark
        exact ⟨[], ⟨rfl, houtside⟩, fun other _ _ => Nat.zero_le other.length⟩
      · rename_i hhere
        obtain ⟨front, hfront, hfirst⟩ := ih hmark
        refine ⟨c :: front, markAt_cons_iff.mpr (Or.inr ⟨front, rfl, hfront⟩), ?_⟩
        intro other later hother
        rcases markAt_cons_iff.mp hother with ⟨_, houtside, hstar, rfl⟩ | ⟨others, rfl, hothers⟩
        · exact absurd ⟨houtside, hstar, rfl⟩ hhere
        · exact Nat.succ_le_succ (hfirst others later hothers)

theorem not_markAt_of_afterMark? {quoting : Quoting} {text : List Char}
    (hmark : quoting.afterMark? text = none) (front back : List Char) :
    ¬ quoting.MarkAt text front back := by
  induction text generalizing quoting front with
  | nil =>
      rintro ⟨htext, _⟩
      cases front <;> cases htext
  | cons c rest ih =>
      rw [afterMark?] at hmark
      split at hmark
      · cases hmark
      · rename_i hhere
        intro hfront
        rcases markAt_cons_iff.mp hfront with ⟨_, houtside, hstar, rfl⟩ | ⟨others, _, hothers⟩
        · exact hhere ⟨houtside, hstar, rfl⟩
        · exact ih hmark others hothers

theorem afterMark?_eq_none_iff {quoting : Quoting} {text : List Char} :
    quoting.afterMark? text = none ↔ ¬ ∃ front back, quoting.MarkAt text front back := by
  constructor
  · rintro hmark ⟨front, back, hfront⟩
    exact not_markAt_of_afterMark? hmark front back hfront
  · intro hnone
    rw [Option.eq_none_iff_forall_ne_some]
    intro back hmark
    obtain ⟨front, hfront⟩ := firstMarkAt_of_afterMark? hmark
    exact hnone ⟨front, back, hfront.toMarkAt⟩

/-- What is found follows the first mark. -/
theorem afterMark?_eq_some_iff {quoting : Quoting} {text back : List Char} :
    quoting.afterMark? text = some back ↔ ∃ front, quoting.FirstMarkAt text front back := by
  constructor
  · exact firstMarkAt_of_afterMark?
  · rintro ⟨front, hfront⟩
    cases hmark : quoting.afterMark? text with
    | none => exact absurd hfront.toMarkAt (not_markAt_of_afterMark? hmark front back)
    | some later =>
        obtain ⟨other, hother⟩ := firstMarkAt_of_afterMark? hmark
        have hlength := Nat.le_antisymm (hfront.first other later hother.toMarkAt)
          (hother.first front back hfront.toMarkAt)
        have htext := hfront.text_eq.symm.trans hother.text_eq
        obtain ⟨_, hmarks⟩ := List.append_inj htext hlength
        rw [(List.cons.inj (List.cons.inj hmarks).2).2]

/-- Reads the class that a character has in a block comment. -/
def nextKind (quoting : Quoting) (kind : CharClass) : Quoting :=
  match quoting with
  | .outside => if kind = .doubleQuote then .inside else .outside
  | .inside =>
      if kind = .doubleQuote then .outside else if kind = .backslash then .escaped else .inside
  | .escaped => .inside

end Quoting

/-- A class of block comments that stands for a single mark stands for that mark only. -/
theorem CharClass.classify_blockComment_iff {c d : Char} {kind : CharClass}
    (hchar : kind.char? = some d) (hkind : CharClass.classify .blockComment d = kind) :
    CharClass.classify .blockComment c = kind ↔ c = d := by
  constructor
  · intro hclass
    exact CharClass.eq_of_char?_classify (by rw [hclass, hchar])
  · rintro rfl
    exact hkind

theorem Quoting.nextKind_classify (quoting : Quoting) (c : Char) :
    quoting.nextKind (.classify .blockComment c) = quoting.next c := by
  have hquote : CharClass.classify .blockComment c = .doubleQuote ↔ c = '"' :=
    CharClass.classify_blockComment_iff rfl rfl
  have hbackslash : CharClass.classify .blockComment c = .backslash ↔ c = '\\' :=
    CharClass.classify_blockComment_iff rfl rfl
  simp only [Quoting.nextKind, Quoting.next, hquote, hbackslash]

/-- Where a reader stands who has read what a scan of a block comment has read. -/
def State.quoting : State → Quoting
  | .commentString => .inside
  | .commentStringEscape => .escaped
  | _ => .outside

/-- A star that the scan has read and that a slash would make a closing mark. -/
def State.heldStar (state : State) : List Char :=
  if state = .commentStar then ['*'] else []

section Table

theorem transition_blockComment_givesBack : ∀ state kind, Mode.owns .blockComment state = true →
    (transition state kind).action.givesBack = 0 ∨
      (transition state kind).action = .acceptBack1 := by
  decide

/-- In a quoted span no token ends before its end or the end of the line. -/
theorem transition_blockComment_back : ∀ state kind, Mode.owns .blockComment state = true →
    kind ≠ .endOfLine → (transition state kind).action = .acceptBack1 →
      state.quoting = .outside := by
  decide

/-- A character that is not given back is read as a reader reads it. -/
theorem transition_blockComment_read : ∀ state kind, Mode.owns .blockComment state = true →
    Mode.presents .blockComment kind = true → kind ≠ .endOfLine →
      (transition state kind).action.givesBack = 0 →
        (transition state kind).action ≠ .stopBlockComment →
          (transition state kind).next.quoting = state.quoting.nextKind kind ∧
            ((transition state kind).next = .commentStar ↔
              state.quoting = .outside ∧ kind = .star) := by
  decide

end Table

/-- A star that no slash follows is no closing mark. -/
theorem State.afterMark?_heldStar {state : State} {c : Char} (rest : List Char)
    (hslash : state = .commentStar → c ≠ '/') :
    state.quoting.afterMark? (state.heldStar ++ c :: rest) =
      state.quoting.afterMark? (c :: rest) := by
  by_cases hstar : state = .commentStar
  · have hnone : ¬ (Quoting.outside = .outside ∧ '*' = '*' ∧ (c :: rest).head? = some '/') := by
      rintro ⟨_, _, hhead⟩
      exact hslash hstar (Option.some.inj hhead)
    rw [State.heldStar, if_pos hstar, hstar]
    change Quoting.outside.afterMark? ('*' :: c :: rest) = _
    rw [Quoting.afterMark?, if_neg hnone]
    rfl
  · rw [State.heldStar, if_neg hstar, List.nil_append]

theorem State.afterMark?_heldStar_nil (state : State) :
    state.quoting.afterMark? (state.heldStar ++ []) = none := by
  unfold State.heldStar
  split
  · rename_i hstar
    rw [hstar]
    rfl
  · rfl

/-- What follows the first closing mark outside of quoted spans on the line that a scan of a block
comment reads. -/
def Scan.afterMark? (line : List Char) (scan : Scan) : Option (List Char) :=
  scan.state.quoting.afterMark? (scan.state.heldStar ++ line.drop scan.offset)

theorem Scan.afterMark?_of_le {line : List Char} {scan : Scan}
    (hend : line.length ≤ scan.offset) : scan.afterMark? line = none := by
  rw [Scan.afterMark?, List.drop_of_length_le hend]
  exact scan.state.afterMark?_heldStar_nil

namespace Step

variable {line : List Char} {t : Step} {rest : List Symbol} {c : Char} {left : List Char}

/-- The slash after a star ends the comment. -/
theorem afterMark?_of_stop (haction : t.action = .stopBlockComment)
    (hsymbol : t.symbol = .char c) (hleft : line.drop t.scan.offset = c :: left) :
    c = '/' ∧ t.scan.afterMark? line = some left := by
  have hmark : t.action = CommentMark.blockClosing.action := haction
  obtain ⟨hstate, hkind⟩ := state_of_mark hmark
  have hslash : c = '/' := by
    rw [Step.kind, hsymbol] at hkind
    exact CharClass.eq_of_char?_classify (congrArg CharClass.char? hkind)
  refine ⟨hslash, ?_⟩
  rw [Scan.afterMark?, hleft, hstate, hslash]
  rfl

section BlockComment

variable (hcoherent : t.scan.Coherent) (hmode : t.scan.mode = .blockComment)

include hcoherent hmode

theorem move_of_blockComment : t.move = transition t.scan.state t.kind := by
  apply move_eq_transition
  intro henters
  have hcode := startState_of_enters hcoherent (Or.inr (Or.inr henters))
  rw [hmode] at hcode
  cases hcode

theorem transition_action_of_blockComment :
    (transition t.scan.state t.kind).action = t.action :=
  (congrArg Move.action (move_of_blockComment hcoherent hmode)).symm

theorem owns_of_blockComment : Mode.owns .blockComment t.scan.state = true := by
  rw [← hmode]
  exact hcoherent.owns_state

/-- A step in a block comment gives its symbol back or nothing. -/
theorem givesBack_of_blockComment : t.action.givesBack = 0 ∨ t.action = .acceptBack1 := by
  have hback := transition_blockComment_givesBack t.scan.state t.kind
    (owns_of_blockComment hcoherent hmode)
  rwa [transition_action_of_blockComment hcoherent hmode] at hback

theorem offset_le_of_blockComment
    (hoffset : t.after.offset + t.action.givesBack = t.scan.offset + 1) :
    t.scan.offset ≤ t.after.offset := by
  rcases givesBack_of_blockComment hcoherent hmode with hback | hback
  · omega
  · rw [hback, Action.givesBack] at hoffset
    omega

end BlockComment

/-- The step is taken in a block comment, which it does not end. -/
structure StaysInComment (t : Step) : Prop where
  mode_eq : t.scan.mode = .blockComment
  action_ne : t.action ≠ .stopBlockComment

namespace StaysInComment

variable (hstays : t.StaysInComment) (hcoherent : t.scan.Coherent)

include hstays hcoherent

theorem after_mode : t.mode = .blockComment := by
  rw [mode_of_blockComment hcoherent hstays.mode_eq, if_neg hstays.action_ne]

theorem after_state : t.after.state = (transition t.scan.state t.kind).next := by
  have hmode : t.mode = t.scan.mode := (hstays.after_mode hcoherent).trans hstays.mode_eq.symm
  rw [← move_of_blockComment hcoherent hstays.mode_eq]
  simp only [Step.after, if_pos hmode]

section Char

variable (hsymbol : t.symbol = .char c) (hleft : line.drop t.scan.offset = c :: left)
  (hoffset : t.after.offset + t.action.givesBack = t.scan.offset + 1)

include hsymbol

omit hcoherent in
theorem kind_eq : t.kind = .classify .blockComment c := by
  rw [Step.kind, hsymbol, hstays.mode_eq]
  rfl

include hleft

/-- Before the step the reader is at the character: a star that the scan holds is of no mark. -/
theorem afterMark?_before :
    t.scan.afterMark? line = t.scan.state.quoting.afterMark? (c :: left) := by
  have htable := transition_action_of_blockComment hcoherent hstays.mode_eq
  have hslash : t.scan.state = .commentStar → c ≠ '/' := by
    rintro hstar rfl
    apply hstays.action_ne
    rw [← htable, hstays.kind_eq hsymbol, hstar]
    rfl
  rw [Scan.afterMark?, hleft, State.afterMark?_heldStar left hslash]

include hoffset

/-- After a step that gives the character back the reader is at the character, too.  A token that
ends before a character is of no quoted span. -/
theorem afterMark?_of_givesBack (hback : t.action = .acceptBack1) :
    t.after.afterMark? line = t.scan.state.quoting.afterMark? (c :: left) := by
  have htable := transition_action_of_blockComment hcoherent hstays.mode_eq
  have hend : t.kind ≠ .endOfLine := by
    rw [hstays.kind_eq hsymbol]
    exact CharClass.classify_ne_endOfLine .blockComment c
  have hquoting := transition_blockComment_back _ _
    (owns_of_blockComment hcoherent hstays.mode_eq) hend (htable.trans hback)
  have hfront := atFront_after hcoherent (t := t) (by simp [hback])
  have hstate : t.after.state = .commentStart := by
    rw [hfront.state_eq, hstays.after_mode hcoherent]
    rfl
  have hstands : t.after.offset = t.scan.offset := by
    rw [hback, Action.givesBack] at hoffset
    omega
  rw [Scan.afterMark?, hstate, hstands, hleft, hquoting]
  rfl

/-- After a step that gives nothing back the reader has read the character, unless it is a star
that the scan holds. -/
theorem afterMark?_of_read (hback : t.action.givesBack = 0) :
    t.after.afterMark? line = t.scan.state.quoting.afterMark? (c :: left) := by
  have htable := transition_action_of_blockComment hcoherent hstays.mode_eq
  have hkind := hstays.kind_eq hsymbol
  have hpresents := t.presents_kind
  rw [hstays.mode_eq] at hpresents
  have hend : t.kind ≠ .endOfLine := by
    rw [hkind]
    exact CharClass.classify_ne_endOfLine .blockComment c
  obtain ⟨hquoting, hholds⟩ := transition_blockComment_read _ _
    (owns_of_blockComment hcoherent hstays.mode_eq) hpresents hend (htable.symm ▸ hback)
    (htable.trans_ne hstays.action_ne)
  have hstar : t.kind = .star ↔ c = '*' := by
    rw [hkind]
    exact CharClass.classify_blockComment_iff rfl rfl
  rw [hstar] at hholds
  have hnext : line.drop t.after.offset = left := by
    rw [show t.after.offset = t.scan.offset + 1 by omega, ← List.tail_drop, hleft, List.tail_cons]
  rw [Scan.afterMark?, hnext, hstays.after_state hcoherent]
  by_cases hheld : t.scan.state.quoting = .outside ∧ c = '*'
  · rw [hholds.mpr hheld, hheld.1, hheld.2]
    rfl
  · rw [State.heldStar, if_neg (mt hholds.mp hheld), List.nil_append, hquoting, hkind,
      Quoting.nextKind_classify, Quoting.afterMark?, if_neg fun hmark => hheld ⟨hmark.1, hmark.2.1⟩]

end Char

/-- A step that stays in a block comment leaves the reader at the same mark. -/
theorem afterMark?_after (hwithin : Scan.Within line t.scan (t.symbol :: rest)) :
    t.after.afterMark? line = t.scan.afterMark? line := by
  have hoffset := offset_after hcoherent hwithin
  cases hsymbol : t.symbol with
  | char c =>
      rw [hsymbol] at hwithin
      obtain ⟨left, hleft, _⟩ := hwithin.left_of_char
      rw [hstays.afterMark?_before hcoherent hsymbol hleft]
      rcases givesBack_of_blockComment hcoherent hstays.mode_eq with hback | hback
      · exact hstays.afterMark?_of_read hcoherent hsymbol hleft hoffset hback
      · exact hstays.afterMark?_of_givesBack hcoherent hsymbol hleft hoffset hback
  | endOfLine =>
      -- No mark is left for either of them, whether a quoted span is open or not.
      have hend := symbolAt_eq_endOfLine_iff.mp (hwithin.symbol_eq.2.symm.trans hsymbol)
      have hlater := hend.trans (offset_le_of_blockComment hcoherent hstays.mode_eq hoffset)
      rw [Scan.afterMark?_of_le hend, Scan.afterMark?_of_le hlater]

end StaysInComment

end Step

/-- The step ends a block comment on the line before the given rest of it, for which the scan goes
on in code. -/
structure Step.StopsBefore (t : Step) (line back : List Char) : Prop where
  mode_eq : t.scan.mode = .blockComment
  action_eq : t.action = .stopBlockComment
  symbol_eq : t.symbol = .char '/'
  offset_eq : t.scan.offset + 1 + back.length = line.length
  after_offset_eq : t.after.offset = t.scan.offset + 1
  after_atFront : t.after.AtFront .normal

/-- How the steps of a scan of a block comment go on, by what follows the closing mark. -/
inductive CommentSteps (line : List Char) (steps : List Step) : Option (List Char) → Prop
  | unended (hstays : ∀ t ∈ steps, t.StaysInComment) : CommentSteps line steps none
  | ended (within : List Step) (stop : Step) (back : List Char)
      (hsteps : steps = within ++ stop :: (stop.after.run (lineSymbols back)).steps)
      (hstays : ∀ t ∈ within, t.StaysInComment) (hstop : stop.StopsBefore line back) :
      CommentSteps line steps (some back)

theorem CommentSteps.cons {line : List Char} {steps : List Step} {t : Step}
    {rest : Option (List Char)} (ht : t.StaysInComment) (hsteps : CommentSteps line steps rest) :
    CommentSteps line (t :: steps) rest := by
  cases hsteps with
  | unended hstays => exact .unended (List.forall_mem_cons.mpr ⟨ht, hstays⟩)
  | ended within stop back hsteps hstays hstop =>
      exact .ended (t :: within) stop back (by rw [hsteps]; rfl)
        (List.forall_mem_cons.mpr ⟨ht, hstays⟩) hstop

/-- The step that ends a comment stands on the slash of the closing mark. -/
theorem Step.exists_stopsBefore {line : List Char} {t : Step} {rest : List Symbol}
    (hcoherent : t.scan.Coherent) (hwithin : Scan.Within line t.scan (t.symbol :: rest))
    (haction : t.action = .stopBlockComment) :
    ∃ back, t.scan.afterMark? line = some back ∧ rest = lineSymbols back ∧
      t.StopsBefore line back := by
  have hmode := mode_of_stopBlockComment hcoherent haction
  have hconsumes : t.action.consumes = true := by rw [haction]; rfl
  obtain ⟨c, hsymbol⟩ := exists_char_of_consumes hconsumes
  rw [hsymbol] at hwithin
  obtain ⟨back, hleft, hrest⟩ := hwithin.left_of_char
  obtain ⟨rfl, hmark⟩ := afterMark?_of_stop haction hsymbol hleft
  refine ⟨back, hmark, hrest, hmode, haction, hsymbol, ?_, ?_, ?_⟩
  · have hlength := congrArg List.length hleft
    rw [List.length_drop, List.length_cons] at hlength
    omega
  · exact after_offset_of_unread (unread_of_consumes hconsumes)
  · have hfront := atFront_after hcoherent (t := t) (by simp [haction])
    rwa [mode_of_blockComment hcoherent hmode, if_pos haction] at hfront

/-- A scan of a block comment stops at the mark at which a reader stops, or nowhere on its line. -/
theorem Scan.run_commentSteps {line : List Char} (scan : Scan) (symbols : List Symbol) :
    scan.Coherent → Scan.Within line scan symbols → scan.mode = .blockComment →
      CommentSteps line (scan.run symbols).steps (scan.afterMark? line) := by
  induction scan, symbols using Scan.run_induction with
  | hnil scan =>
      intro _ hwithin _
      have hend : line.length ≤ scan.offset := by
        rw [hwithin.offset_of_nil]
        exact Nat.le_succ line.length
      rw [Scan.run_nil, Scan.afterMark?_of_le hend]
      exact .unended fun t ht => absurd ht List.not_mem_nil
  | hcons t rest ih =>
      intro hcoherent hwithin hmode
      rw [Scan.run_cons_steps]
      by_cases haction : t.action = .stopBlockComment
      · obtain ⟨back, hmark, rfl, hstop⟩ := Step.exists_stopsBefore hcoherent hwithin haction
        have hunread : t.unread = [] := Step.unread_of_consumes (by rw [haction]; rfl)
        rw [hmark, hunread, List.nil_append]
        exact .ended [] t back rfl (fun t ht => absurd ht List.not_mem_nil) hstop
      · have hstays : t.StaysInComment := ⟨hmode, haction⟩
        have hlater := ih (Step.coherent_after hcoherent) (Step.within_after hcoherent hwithin)
          (hstays.after_mode hcoherent)
        rw [hstays.afterMark?_after hcoherent hwithin] at hlater
        exact hlater.cons hstays

/-- The first step over a line is taken at its front. -/
theorem scanLine_steps_cons (mode : Mode) (line : List Char) :
    ∃ first later, (scanLine mode line).steps = first :: later ∧
      first.scan = Scan.ofMode mode := by
  cases hsymbols : lineSymbols line with
  | nil => exact absurd hsymbols (lineSymbols_ne_nil line)
  | cons symbol rest =>
      rw [scanLine, hsymbols]
      exact ⟨_, _, Scan.run_cons_steps ⟨Scan.ofMode mode, symbol⟩ rest, rfl⟩

section Line

variable {mode : Mode} {line : List Char} {before after : List Step} {t : Step}
  (hsplit : (scanLine mode line).steps = before ++ t :: after)

include hsplit

/-- A comment that is not ended goes on with the next line. -/
theorem carriedMode_of_staysInComment (hstays : ∀ s ∈ t :: after, s.StaysInComment) :
    carriedMode mode line = .blockComment := by
  cases hlast : (t :: after).getLast? with
  | none => cases List.getLast?_eq_none_iff.mp hlast
  | some last =>
      have hmem : last ∈ t :: after := List.mem_of_getLast? hlast
      have hsteps : last ∈ (scanLine mode line).steps := by
        rw [hsplit]
        exact List.mem_append_right before hmem
      have hafter : (scanLine mode line).last = last.after := by
        rw [scanLine, Scan.run_last_eq, ← scanLine, hsplit, List.getLast?_append, hlast]
        rfl
      have hcarried : last.after.mode = .blockComment :=
        (hstays last hmem).after_mode (scanLine_coherent hsteps)
      rw [carriedMode, hafter, Scan.park, hcarried]
      rfl

/-- Where nothing has been read of a token the comment goes on as a reader finds it who starts
outside of quoted spans. -/
theorem scanLine_commentSteps (hmode : t.scan.mode = .blockComment)
    (hstate : t.scan.state = .commentStart) :
    CommentSteps line (t :: after) (Quoting.outside.afterMark? (line.drop t.scan.offset)) := by
  obtain ⟨rest, hcoherent, hwithin, hsteps⟩ := scanLine_steps_within hsplit
  have hrun := Scan.run_commentSteps t.scan (t.symbol :: rest) hcoherent hwithin hmode
  rw [hsteps, Scan.afterMark?, hstate] at hrun
  exact hrun

/-- Where a scan is in a block comment and has read nothing of a token, as it is after the opening
mark and at the front of a line on which a comment goes on, the comment ends on the line if and
only if a closing mark outside of quoted spans is left of it.  The scan stops at the first of these
marks and goes on in code right behind it.  If there is none, all that is left of the line belongs
to the comment, and the next line starts with such a scan again. -/
theorem scanLine_blockComment_end (hmode : t.scan.mode = .blockComment)
    (hstate : t.scan.state = .commentStart) :
    let left := line.drop t.scan.offset
    ((∃ stop ∈ t :: after, stop.action = .stopBlockComment) ↔
      ∃ front back, Quoting.outside.MarkAt left front back) ∧
    ((∃ front back, Quoting.outside.MarkAt left front back) →
      ∃ front back, Quoting.outside.FirstMarkAt left front back ∧
        ∃ within stop, t :: after = within ++ stop :: (stop.after.run (lineSymbols back)).steps ∧
          (∀ s ∈ within, s.StaysInComment) ∧ stop.StopsBefore line back ∧
            stop.scan.offset = t.scan.offset + front.length + 1) ∧
    ((¬ ∃ front back, Quoting.outside.MarkAt left front back) →
      (∀ s ∈ t :: after, s.StaysInComment) ∧ carriedMode mode line = .blockComment ∧
        ∀ next, ∃ first later, (scanLine (carriedMode mode line) next).steps = first :: later ∧
          first.scan.mode = .blockComment ∧ first.scan.state = .commentStart ∧
            first.scan.offset = 0) := by
  intro left
  have hcomment := scanLine_commentSteps hsplit hmode hstate
  cases hmark : Quoting.outside.afterMark? left with
  | none =>
      have hnone := Quoting.afterMark?_eq_none_iff.mp hmark
      rw [hmark] at hcomment
      cases hcomment with
      | unended hstays =>
          have hcarried := carriedMode_of_staysInComment hsplit hstays
          refine ⟨⟨?_, fun hexists => absurd hexists hnone⟩, fun hexists => absurd hexists hnone,
            fun _ => ⟨hstays, hcarried, ?_⟩⟩
          · rintro ⟨stop, hmem, haction⟩
            exact absurd haction (hstays stop hmem).action_ne
          · intro next
            obtain ⟨first, later, hnext, hfirst⟩ := scanLine_steps_cons .blockComment next
            rw [hcarried]
            exact ⟨first, later, hnext, by rw [hfirst]; exact ⟨rfl, rfl, rfl⟩⟩
  | some back =>
      obtain ⟨front, hfront⟩ := Quoting.afterMark?_eq_some_iff.mp hmark
      have hexists : ∃ front back, Quoting.outside.MarkAt left front back :=
        ⟨front, back, hfront.toMarkAt⟩
      rw [hmark] at hcomment
      cases hcomment with
      | ended within stop _ hsplits hstays hstop =>
          have hmem : stop ∈ t :: after := by
            rw [hsplits]
            exact List.mem_append_right within List.mem_cons_self
          refine ⟨⟨fun _ => hexists, fun _ => ⟨stop, hmem, hstop.action_eq⟩⟩,
            fun _ => ⟨front, back, hfront, within, stop, hsplits, hstays, hstop, ?_⟩,
            fun hnone => absurd hexists hnone⟩
          have hlength := congrArg List.length hfront.text_eq
          have hoffset := hstop.offset_eq
          simp only [left, List.length_drop, List.length_append, List.length_cons] at hlength
          omega

end Line

/-- A star and a slash in quotes end no comment, and a star of its own may stand before the mark. -/
theorem scanLine_blockComment_end_quoted :
    let line := ['/', '*', ' ', '"', '*', '/', '"', ' ', '*', '*', '/', ' ', 'y']
    let t : Step := ⟨⟨.blockComment, .commentStart, [], 0, 2⟩, .char ' '⟩
    ∃ before after, (scanLine .normal line).steps = before ++ t :: after ∧
      ∃ stop ∈ t :: after, stop.action = .stopBlockComment ∧ stop.scan.offset = 10 := by
  intro line t
  have hsplit : (scanLine .normal line).steps =
      (scanLine .normal line).steps.take 2 ++ t :: (scanLine .normal line).steps.drop 3 := by
    decide +kernel
  have hmark : Quoting.outside.MarkAt (line.drop t.scan.offset)
      [' ', '"', '*', '/', '"', ' ', '*'] [' ', 'y'] := ⟨rfl, rfl⟩
  obtain ⟨_, hended, _⟩ := scanLine_blockComment_end hsplit rfl rfl
  obtain ⟨front, back, hfirst, within, stop, hsteps, _, hstop, _⟩ := hended ⟨_, _, hmark⟩
  obtain rfl : back = [' ', 'y'] :=
    Option.some.inj (Quoting.afterMark?_eq_some_iff.mpr ⟨front, hfirst⟩).symm
  refine ⟨_, _, hsplit, stop, by rw [hsteps]; simp, hstop.action_eq, ?_⟩
  exact Nat.add_right_cancel (m := 3) hstop.offset_eq

end LineLexer
